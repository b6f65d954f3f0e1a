import Baselines.Text.Lines
import Baselines.Proofs.Text.Pieces

/-!
# Lines of a text

The rows of a text are its lines and, behind its last line feed, an empty one. Rows go well with
joining and with appending, and they differ from the lines only by that empty row, which no normal
form keeps.
-/

namespace Baselines.Text

/-! ## 1. Carriage returns -/

def endsInReturn (l : Text) : Bool := l.getLast? = some '\r'

theorem dropReturn_append_return (l : Text) : dropReturn (l ++ ['\r']) = l := by
  simp [dropReturn, dropTail?, dropLead?]

/-- A line that ends in a return is what is left without it, and the return. -/
theorem eq_append_return {l : Text} (h : endsInReturn l = true) : l = l.dropLast ++ ['\r'] := by
  have h : l.getLast? = some '\r' := by simpa [endsInReturn] using h
  exact (List.dropLast_append_getLast? '\r' h).symm

theorem dropReturn_of_not {l : Text} (h : endsInReturn l = false) : dropReturn l = l := by
  have h : l.getLast? ≠ some '\r' := by simpa [endsInReturn] using h
  rw [List.getLast?_eq_head?_reverse] at h
  unfold dropReturn dropTail?
  cases hl : l.reverse with
  | nil => rfl
  | cons x r =>
    have hx : '\r' ≠ x := by
      intro he
      simp [hl, ← he] at h
    simp [dropLead?, hx]

/-- A line is its text without the return, or that text and one return. -/
theorem dropReturn_cases (l : Text) : l = dropReturn l ∨ l = dropReturn l ++ ['\r'] := by
  cases h : endsInReturn l with
  | true =>
    right
    rw [eq_append_return h, dropReturn_append_return]
  | false => exact Or.inl (dropReturn_of_not h).symm

theorem length_dropReturn_le (l : Text) : (dropReturn l).length ≤ l.length := by
  rcases dropReturn_cases l with h | h
  · rw [← h]
  · have := congrArg List.length h
    rw [List.length_append, List.length_singleton] at this
    omega

/-- Exactly a line without a return at its end keeps all of itself. -/
theorem dropReturn_eq_self {l : Text} : dropReturn l = l ↔ endsInReturn l = false := by
  refine ⟨fun h => ?_, dropReturn_of_not⟩
  cases hl : endsInReturn l with
  | false => rfl
  | true =>
    rw [eq_append_return hl, dropReturn_append_return] at h
    have := congrArg List.length h
    simp at this

/-- Only the end of what is appended matters, unless that is empty. -/
theorem dropReturn_append (l : Text) {v : Text} (hv : v ≠ []) :
    dropReturn (l ++ v) = l ++ dropReturn v := by
  rcases dropReturn_cases v with h | h
  · have hl : endsInReturn (l ++ v) = false := by
      have := dropReturn_eq_self.1 h.symm
      simpa [endsInReturn, List.getLast?_append_of_ne_nil _ hv] using this
    rw [dropReturn_of_not hl, ← h]
  · rw [h, ← List.append_assoc, dropReturn_append_return, dropReturn_append_return]

theorem mem_of_mem_dropReturn {c : Char} {l : Text} (h : c ∈ dropReturn l) : c ∈ l := by
  rcases dropReturn_cases l with he | he
  · rwa [← he] at h
  · rw [he]
    exact List.mem_append_left _ h

/-! ## 2. Rows -/

/-- The pieces as lines: every one but the last has come before a line feed. -/
def rowsOf : List Text → List Text
  | [] => []
  | [p] => [p]
  | p :: q :: r => dropReturn p :: rowsOf (q :: r)

/-- The lines of a text, and an empty one behind a line feed at its end. -/
def rows (t : Text) : List Text := rowsOf (splitOn '\n' t)

theorem rowsOf_cons (p : Text) {r : List Text} (h : r ≠ []) :
    rowsOf (p :: r) = dropReturn p :: rowsOf r := by
  cases r with
  | nil => exact absurd rfl h
  | cons q r => rfl

/-- Pieces that more pieces follow lose their returns, and only the last one can keep it. -/
theorem rowsOf_append (a : List Text) {b : List Text} (hb : b ≠ []) :
    rowsOf (a ++ b) = a.map dropReturn ++ rowsOf b := by
  induction a with
  | nil => rfl
  | cons p r ih => rw [List.cons_append, rowsOf_cons p (by simp [hb]), ih]; rfl

theorem rowsOf_ne_nil {ps : List Text} (h : ps ≠ []) : rowsOf ps ≠ [] := by
  cases ps with
  | nil => exact absurd rfl h
  | cons p r => cases r <;> simp [rowsOf]

theorem rows_ne_nil (t : Text) : rows t ≠ [] := rowsOf_ne_nil (splitOn_ne_nil '\n' t)

theorem not_mem_rows {t l : Text} (h : l ∈ rows t) : '\n' ∉ l := by
  have key : ∀ ps : List Text, (∀ p ∈ ps, '\n' ∉ p) → ∀ l ∈ rowsOf ps, '\n' ∉ l := by
    intro ps
    induction ps with
    | nil => simp [rowsOf]
    | cons p r ih =>
      intro hp l hl
      cases r with
      | nil => exact hp l hl
      | cons q r =>
        rw [rowsOf_cons p (by simp), List.mem_cons] at hl
        rcases hl with rfl | hl
        · exact fun hm => hp p List.mem_cons_self (mem_of_mem_dropReturn hm)
        · exact ih (fun x hx => hp x (List.mem_cons_of_mem p hx)) l hl
  exact key _ (fun p hp => not_mem_of_mem_splitOn hp) l h

/-- The last piece is a line unless it is empty. -/
theorem lines_of_splitOn {t last : Text} {front : List Text}
    (h : splitOn '\n' t = front ++ [last]) :
    lines t = front.map dropReturn ++ if last = [] then [] else [last] := by
  unfold lines
  rw [h, List.reverse_append, List.reverse_singleton, List.singleton_append]
  simp only [List.reverse_reverse]
  split <;> simp

/-- The lines are the rows without a last one that is empty. -/
theorem rows_eq_lines (t : Text) : rows t = lines t ∨ rows t = lines t ++ [[]] := by
  obtain ⟨front, last, h⟩ := exists_splitOn_concat '\n' t
  have hr : rows t = front.map dropReturn ++ [last] := by
    unfold rows
    rw [h, rowsOf_append front (List.cons_ne_nil _ _), rowsOf]
  rw [hr, lines_of_splitOn h]
  by_cases he : last = []
  · right
    simp [he]
  · left
    rw [if_neg he]

theorem not_mem_lines {t l : Text} (h : l ∈ lines t) : '\n' ∉ l := by
  rcases rows_eq_lines t with he | he
  · exact not_mem_rows (t := t) (by rw [he]; exact h)
  · exact not_mem_rows (t := t) (by rw [he]; exact List.mem_append_left _ h)

/-- Only the empty text has no lines. -/
theorem lines_eq_nil {t : Text} : lines t = [] ↔ t = [] := by
  refine ⟨fun h => ?_, fun h => by rw [h]; rfl⟩
  obtain ⟨front, last, hs⟩ := exists_splitOn_concat '\n' t
  unfold lines at h
  rw [hs, List.reverse_append, List.reverse_singleton, List.singleton_append] at h
  simp only [List.reverse_reverse] at h
  split at h
  · rename_i hl
    rw [List.map_eq_nil_iff] at h
    rw [← join_splitOn '\n' t, hs, h, hl]
    rfl
  · exact absurd h (by simp)

/-- Every row of a text with a line feed at its end has been one of its lines. -/
theorem lines_append_lineFeed (t : Text) : lines (t ++ ['\n']) = (splitOn '\n' t).map dropReturn := by
  unfold lines
  rw [splitOn_append, splitOn_nil]
  simp

theorem lines_append_lineFeed_append {p : Text} (hp : '\n' ∉ p) (t : Text) :
    lines (p ++ '\n' :: t) = dropReturn p :: lines t := by
  obtain ⟨front, last, h⟩ := exists_splitOn_concat '\n' t
  have hs : splitOn '\n' (p ++ '\n' :: t) = p :: front ++ [last] := by
    rw [splitOn_append, splitOn_of_not_mem hp, h]
    rfl
  rw [lines_of_splitOn hs, lines_of_splitOn h]
  rfl

/-- What stands before a text that does not begin with a line feed lengthens its first line. -/
theorem lines_append {p t : Text} (hp : '\n' ∉ p) (hne : p ≠ []) (ht : t.head? ≠ some '\n') :
    lines (p ++ t) = match lines t with
      | [] => [p]
      | l :: ls => (p ++ l) :: ls := by
  have hp : splitOn '\n' p = [] ++ [p] := splitOn_of_not_mem hp
  obtain ⟨front, last, h⟩ := exists_splitOn_concat '\n' t
  cases front with
  | nil =>
    have hs : splitOn '\n' (p ++ t) = [] ++ [p ++ last] := splitOn_append_pieces hp h
    rw [lines_of_splitOn hs, lines_of_splitOn h]
    by_cases hl : last = []
    · simp [hl, hne]
    · simp [hl, hne]
  | cons q qs =>
    have hs : splitOn '\n' (p ++ t) = ((p ++ q) :: qs) ++ [last] := splitOn_append_pieces hp h
    -- a first piece that is empty stands before a line feed
    have hq : q ≠ [] := by
      rintro rfl
      rw [← join_splitOn '\n' t, h, List.cons_append, join_cons [] (by simp)] at ht
      exact ht rfl
    rw [lines_of_splitOn hs, lines_of_splitOn h, List.map_cons, dropReturn_append p hq]
    rfl

-- The last row is the last piece, so it ends in a return only where the text does.
theorem endsInReturn_of_splitOn {t l : Text} {ps : List Text} (h : splitOn '\n' t = ps ++ [l])
    (hl : endsInReturn l = true) : endsInReturn t = true := by
  have ht := join_splitOn '\n' t
  rw [h] at ht
  have hne : l ≠ [] := by
    intro he
    simp [he, endsInReturn] at hl
  by_cases hp : ps = []
  · rw [hp] at ht
    exact ht ▸ hl
  · rw [join_append hp (List.cons_ne_nil l [])] at ht
    rw [← ht, endsInReturn, join, ← List.append_assoc, List.getLast?_append_of_ne_nil _ hne]
    exact hl

/-- A text without a return at its end has the rows that it shows once a line feed ends it. -/
theorem lines_append_lineFeed_eq_rows {t : Text} (h : endsInReturn t = false) :
    lines (t ++ ['\n']) = rows t := by
  obtain ⟨front, last, hs⟩ := exists_splitOn_concat '\n' t
  have hl : endsInReturn last = false := by
    by_contra hn
    rw [endsInReturn_of_splitOn hs (by simpa using hn)] at h
    exact absurd h (by decide)
  rw [lines_append_lineFeed, rows, hs, rowsOf_append front (List.cons_ne_nil _ _),
    List.map_append, List.map_singleton, dropReturn_of_not hl, rowsOf]

theorem mem_rowsOf {ps : List Text} {l : Text} (h : l ∈ rowsOf ps) :
    ∃ p ∈ ps, ∀ c ∈ l, c ∈ p := by
  induction ps with
  | nil => exact absurd h List.not_mem_nil
  | cons p r ih =>
    by_cases hr : r = []
    · rw [hr, rowsOf, List.mem_singleton] at h
      exact ⟨p, List.mem_cons_self, fun c hc => h ▸ hc⟩
    · rw [rowsOf_cons p hr, List.mem_cons] at h
      rcases h with rfl | h
      · exact ⟨p, List.mem_cons_self, fun c hc => mem_of_mem_dropReturn hc⟩
      · obtain ⟨q, hq, hc⟩ := ih h
        exact ⟨q, List.mem_cons_of_mem p hq, hc⟩

/-- What stands in a line stands in the text. -/
theorem mem_of_mem_lines {t l : Text} {c : Char} (h : l ∈ lines t) (hc : c ∈ l) : c ∈ t := by
  have hl : l ∈ rows t := by
    rcases rows_eq_lines t with he | he
    · rw [he]
      exact h
    · rw [he]
      exact List.mem_append_left _ h
  obtain ⟨p, hp, hcp⟩ := mem_rowsOf hl
  exact mem_of_mem_splitOn hp (hcp c hc)

/-- The last row is all that stands behind the last line feed. -/
theorem last_row {t l : Text} {front : List Text} (h : rows t = front ++ [l]) :
    (front = [] ∧ t = l) ∨ ∃ s, t = s ++ '\n' :: l := by
  obtain ⟨ps, p, hs⟩ := exists_splitOn_concat '\n' t
  have ht := join_splitOn '\n' t
  rw [hs] at ht
  rw [rows, hs, rowsOf_append ps (List.cons_ne_nil p []), rowsOf] at h
  obtain ⟨hf, hl⟩ := List.append_inj' h rfl
  obtain rfl := List.singleton_inj.1 hl
  by_cases hp : ps = []
  · left
    rw [hp] at hf ht
    exact ⟨hf.symm, ht.symm⟩
  · right
    rw [join_append hp (List.cons_ne_nil p [])] at ht
    exact ⟨_, ht.symm⟩

/-- What is appended to a text lengthens its last row and adds rows behind it. -/
theorem exists_rows_append {t w : Text} (ht : endsInReturn t = false) :
    ∃ front l v more, rows t = front ++ [l] ∧ rows (t ++ w) = front ++ (l ++ v) :: more ∧
      (∀ c ∈ v, c ∈ w) ∧ ∀ u ∈ more, ∀ c ∈ u, c ∈ w := by
  obtain ⟨front, l, hs⟩ := exists_splitOn_concat '\n' t
  obtain ⟨v, more, hw⟩ := List.exists_cons_of_ne_nil (splitOn_ne_nil '\n' w)
  have hl : endsInReturn l = false := by
    by_contra hn
    rw [endsInReturn_of_splitOn hs (by simpa using hn)] at ht
    exact absurd ht (by decide)
  have hv : ∀ c ∈ v, c ∈ w := fun c hc =>
    mem_of_mem_splitOn (by rw [hw]; exact List.mem_cons_self) hc
  have hmore : ∀ u ∈ rowsOf more, ∀ c ∈ u, c ∈ w := by
    intro u hu c hc
    obtain ⟨p, hp, hcp⟩ := mem_rowsOf hu
    exact mem_of_mem_splitOn (by rw [hw]; exact List.mem_cons_of_mem v hp) (hcp c hc)
  have hrows : rows (t ++ w) = front.map dropReturn ++ rowsOf ((l ++ v) :: more) := by
    rw [rows, splitOn_append_pieces hs hw, rowsOf_append front (List.cons_ne_nil _ _)]
  have ht' : rows t = front.map dropReturn ++ [l] := by
    rw [rows, hs, rowsOf_append front (List.cons_ne_nil _ _), rowsOf]
  by_cases hm : more = []
  · exact ⟨_, l, v, [], ht', by rw [hrows, hm, rowsOf], hv, by simp⟩
  · by_cases hve : v = []
    · refine ⟨_, l, [], rowsOf more, ht', ?_, by simp, hmore⟩
      rw [hrows, rowsOf_cons _ hm, hve, List.append_nil, dropReturn_of_not hl]
    · refine ⟨_, l, dropReturn v, rowsOf more, ht', ?_, fun c hc => ?_, hmore⟩
      · rw [hrows, rowsOf_cons _ hm, dropReturn_append l hve]
      · exact hv c (mem_of_mem_dropReturn hc)

theorem rows_lineFeed (t : Text) : rows ('\n' :: t) = [] :: rows t := by
  rw [rows, splitOn_cons_self, rowsOf_cons [] (splitOn_ne_nil '\n' t)]
  rfl

theorem rows_return_lineFeed (t : Text) : rows ('\r' :: '\n' :: t) = [] :: rows t := by
  have hs : splitOn '\n' ('\r' :: '\n' :: t) = ['\r'] :: splitOn '\n' t :=
    splitOn_append ['\r'] t
  rw [rows, hs, rowsOf_cons _ (splitOn_ne_nil '\n' t)]
  rfl

/-- A character that ends no line, also not together with the next one, lengthens the first row. -/
theorem rows_cons {c : Char} {t l : Text} {r : List Text} (hc : c ≠ '\n')
    (ht : c = '\r' → t.head? ≠ some '\n') (h : rows t = l :: r) :
    rows (c :: t) = (c :: l) :: r := by
  obtain ⟨p, ps, hp, hs⟩ := splitOn_cons_ne hc t
  unfold rows at h ⊢
  rw [hp] at h
  rw [hs]
  by_cases hps : ps = []
  · rw [hps, rowsOf] at h
    obtain ⟨rfl, rfl⟩ := List.cons.inj h
    rw [hps, rowsOf]
  · rw [rowsOf_cons p hps] at h
    obtain ⟨rfl, rfl⟩ := List.cons.inj h
    rw [rowsOf_cons _ hps]
    by_cases he : p = []
    · -- the first row is empty, so a line feed comes next
      have hfeed : t.head? = some '\n' := by
        rw [← join_splitOn '\n' t, hp, he, join_cons [] hps]
        rfl
      have hreturn : endsInReturn [c] = false := by
        simpa [endsInReturn] using fun hr => ht hr hfeed
      rw [he, dropReturn_of_not hreturn]
      rfl
    · have hd : dropReturn (c :: p) = c :: dropReturn p := dropReturn_append [c] he
      rw [hd]

/-! ## 3. Joined lines -/

theorem unlines_cons (l : Text) {r : List Text} (h : r ≠ []) :
    unlines (l :: r) = l ++ '\n' :: unlines r := join_cons l h

theorem unlines_append_singleton {ls : List Text} (h : ls ≠ []) (l : Text) :
    unlines (ls ++ [l]) = unlines ls ++ '\n' :: l := join_append h (List.cons_ne_nil l [])

/-- The rows of joined lines are these lines, all but the last without their returns. -/
theorem rows_unlines {ls : List Text} (h : ls ≠ []) (hl : ∀ l ∈ ls, '\n' ∉ l) :
    rows (unlines ls) = rowsOf ls := by
  unfold rows unlines
  rw [splitOn_join h hl]

/-- Joined lines are read back without their returns, if the last of them has none. -/
theorem rowsOf_eq_map {ls : List Text} (h : ∀ l, ls.getLast? = some l → endsInReturn l = false) :
    rowsOf ls = ls.map dropReturn := by
  induction ls using List.reverseRecOn with
  | nil => rfl
  | append_singleton r l _ =>
    rw [rowsOf_append r (List.cons_ne_nil l []), List.map_append, List.map_singleton,
      dropReturn_of_not (h l (by simp)), rowsOf]

/-- The lines without the empty ones at their end. -/
def dropEmptyEnd (ls : List Text) : List Text := ls.rdropWhile (· = [])

/-- One more empty line at the end is dropped too. -/
theorem dropEmptyEnd_append_empty (ls : List Text) :
    dropEmptyEnd (ls ++ [[]]) = dropEmptyEnd ls := List.rdropWhile_concat_pos _ _ _ (by simp)

/-- A line at the end that is not empty keeps all lines before it. -/
theorem dropEmptyEnd_append {l : Text} (h : l ≠ []) (ls : List Text) :
    dropEmptyEnd (ls ++ [l]) = ls ++ [l] := List.rdropWhile_concat_neg _ _ _ (by simpa using h)

theorem dropEmptyEnd_cons (l : Text) (r : List Text) :
    dropEmptyEnd (l :: r) = if l = [] ∧ dropEmptyEnd r = [] then [] else l :: dropEmptyEnd r := by
  induction r using List.reverseRecOn with
  | nil =>
    by_cases hl : l = []
    · rw [hl]
      rfl
    · rw [if_neg (by simp [hl])]
      exact dropEmptyEnd_append hl []
  | append_singleton s x ih =>
    by_cases hx : x = []
    · rw [hx, ← List.cons_append, dropEmptyEnd_append_empty, dropEmptyEnd_append_empty, ih]
    · rw [← List.cons_append, dropEmptyEnd_append hx, dropEmptyEnd_append hx, if_neg (by simp)]
      rfl

/-- Nothing is left exactly of empty lines. -/
theorem dropEmptyEnd_eq_nil {ls : List Text} : dropEmptyEnd ls = [] ↔ ∀ l ∈ ls, l = [] := by
  simp [dropEmptyEnd]

theorem mem_of_mem_dropEmptyEnd {l : Text} {ls : List Text} (h : l ∈ dropEmptyEnd ls) : l ∈ ls :=
  (List.rdropWhile_prefix _ _).subset h

/-- Only empty lines are dropped. -/
theorem mem_dropEmptyEnd {l : Text} {ls : List Text} (h : l ∈ ls) (hl : l ≠ []) :
    l ∈ dropEmptyEnd ls := by
  induction ls using List.reverseRecOn with
  | nil => exact absurd h List.not_mem_nil
  | append_singleton r x ih =>
    by_cases hx : x = []
    · rw [hx, dropEmptyEnd_append_empty]
      rw [hx, List.mem_append, List.mem_singleton] at h
      exact ih (h.resolve_right hl)
    · rwa [dropEmptyEnd_append hx]

theorem flatten_dropEmptyEnd (ls : List Text) : (dropEmptyEnd ls).flatten = ls.flatten := by
  induction ls using List.reverseRecOn with
  | nil => rfl
  | append_singleton r l ih =>
    by_cases hl : l = []
    · rw [hl, dropEmptyEnd_append_empty, ih]
      simp
    · rw [dropEmptyEnd_append hl]

/-- What is left does not end in an empty line. -/
theorem getLast?_dropEmptyEnd (ls : List Text) : (dropEmptyEnd ls).getLast? ≠ some [] := by
  intro h
  have hne : ls.rdropWhile (· = []) ≠ [] := by
    intro he
    unfold dropEmptyEnd at h
    rw [he] at h
    simp at h
  have hl := List.rdropWhile_last_not _ _ hne
  unfold dropEmptyEnd at h
  rw [List.getLast?_eq_some_getLast hne, Option.some.injEq] at h
  simp [h] at hl

/-- The line feeds at the end of joined lines stand for the empty lines there. -/
theorem dropLineFeeds_unlines {ls : List Text} (h : ∀ l ∈ ls, '\n' ∉ l) :
    dropLineFeeds (unlines ls) = unlines (dropEmptyEnd ls) := by
  induction ls using List.reverseRecOn with
  | nil => rfl
  | append_singleton r l ih =>
    by_cases hl : l = []
    · rw [hl, dropEmptyEnd_append_empty, ← ih fun x hx => h x (List.mem_append_left _ hx)]
      by_cases hr : r = []
      · rw [hr]
        rfl
      · rw [unlines_append_singleton hr]
        exact dropEndWhile_append (by simp)
    · -- the joined lines end as the last one does, which is not empty and holds no line feed
      rw [dropEmptyEnd_append hl]
      apply dropEndWhile_eq_self
      intro c hc
      have hm : '\n' ∉ l := h l (by simp)
      have hlast : l.getLast? = some c := by
        by_cases hr : r = []
        · rw [hr] at hc
          exact hc
        · rw [unlines_append_singleton hr, List.getLast?_append_of_ne_nil _ (by simp)] at hc
          rwa [List.getLast?_cons, List.getLast?_eq_some_getLast hl, Option.getD_some,
            ← List.getLast?_eq_some_getLast hl] at hc
      have hcl : c ∈ l := List.mem_of_getLast? hlast
      simp only [beq_eq_false_iff_ne]
      exact fun he => hm (he ▸ hcl)

/-- Joined lines come apart again, except that no lines and one empty line join alike. -/
theorem splitOn_unlines {ls : List Text} (h : ∀ l ∈ ls, '\n' ∉ l) :
    splitOn '\n' (unlines ls) = orEmpty ls := by
  unfold orEmpty
  split
  · rename_i he
    rw [he]
    rfl
  · rename_i he
    exact splitOn_join he h

/-- Joined lines determine the lines, unless the last of them is empty. -/
theorem unlines_injective {a b : List Text} (ha : ∀ l ∈ a, '\n' ∉ l) (hb : ∀ l ∈ b, '\n' ∉ l)
    (ha' : a.getLast? ≠ some []) (hb' : b.getLast? ≠ some []) (h : unlines a = unlines b) :
    a = b := by
  have he := splitOn_unlines ha
  rw [h, splitOn_unlines hb, orEmpty, orEmpty] at he
  by_cases h1 : a = [] <;> by_cases h2 : b = []
  · rw [h1, h2]
  · rw [if_neg h2, if_pos h1] at he
    simp [he] at hb'
  · rw [if_pos h2, if_neg h1] at he
    simp [← he] at ha'
  · rw [if_neg h2, if_neg h1] at he
    exact he.symm

/-! ## 4. Byte order marks -/

/-- Whether a byte order mark stands before the text. -/
def hasMark (t : Text) : Bool := t.head? = some '\uFEFF'

theorem dropMark_of_not {t : Text} (h : hasMark t = false) : dropMark t = t := by
  cases t with
  | nil => rfl
  | cons x r =>
    have hx : '\uFEFF' ≠ x := by
      intro he
      simp [hasMark, ← he] at h
    simp [dropMark, dropLead?, hx]

theorem dropMark_mark (r : Text) : dropMark ('\uFEFF' :: r) = r := rfl

theorem eq_mark_cons {t : Text} (h : hasMark t = true) : t = '\uFEFF' :: dropMark t := by
  cases t with
  | nil => simp [hasMark] at h
  | cons x r =>
    have hx : x = '\uFEFF' := by simpa [hasMark] using h
    rw [hx, dropMark_mark]

theorem dropMark_eq_self {t : Text} : dropMark t = t ↔ hasMark t = false := by
  refine ⟨fun h => ?_, dropMark_of_not⟩
  cases hm : hasMark t with
  | false => rfl
  | true => simpa [h] using congrArg List.length (eq_mark_cons hm)

theorem hasMark_append {t : Text} (h : t ≠ []) (w : Text) : hasMark (t ++ w) = hasMark t := by
  cases t with
  | nil => exact absurd rfl h
  | cons x r => rfl

/-- A mark is dropped at the start of a text, whatever follows. -/
theorem dropMark_append {t w : Text} (h : hasMark w = false) :
    dropMark (t ++ w) = dropMark t ++ w := by
  cases t with
  | nil => exact dropMark_of_not h
  | cons x r =>
    by_cases hx : x = '\uFEFF'
    · rw [hx]
      rfl
    · have hn : ∀ s, hasMark (x :: s) = false := fun s => by simp [hasMark, hx]
      rw [List.cons_append, dropMark_of_not (hn _), dropMark_of_not (hn _), List.cons_append]

theorem hasMark_of_forall {p : Char → Bool} (hp : p '\uFEFF' = false) {w : Text}
    (hw : ∀ c ∈ w, p c = true) : hasMark w = false := by
  cases w with
  | nil => rfl
  | cons x r =>
    have hx : x ≠ '\uFEFF' := by
      intro he
      rw [← he, hw x List.mem_cons_self] at hp
      exact absurd hp (by decide)
    simp [hasMark, hx]

theorem hasMark_dropEndWhile {p : Char → Bool} (hp : p '\uFEFF' = false) (t : Text) :
    hasMark (dropEndWhile p t) = hasMark t := by
  obtain ⟨w, ht, hw⟩ := exists_dropEndWhile p t
  conv_rhs => rw [ht]
  by_cases h : dropEndWhile p t = []
  · rw [h, List.nil_append, hasMark_of_forall hp hw]
    rfl
  · rw [hasMark_append h]

/-- Without its mark a text ends as it did. -/
theorem getLast?_dropMark {t : Text} {c : Char} (h : (dropMark t).getLast? = some c) :
    t.getLast? = some c := by
  cases hm : hasMark t with
  | false => rwa [dropMark_of_not hm] at h
  | true =>
    rw [eq_mark_cons hm, List.getLast?_cons, h]
    rfl

theorem dropMark_dropEndWhile {p : Char → Bool} (hp : p '\uFEFF' = false) (t : Text) :
    dropMark (dropEndWhile p t) = dropEndWhile p (dropMark t) := by
  obtain ⟨w, ht, hw⟩ := exists_dropEndWhile p t
  have hd : dropMark t = dropMark (dropEndWhile p t) ++ w := by
    conv_lhs => rw [ht]
    exact dropMark_append (hasMark_of_forall hp hw)
  conv_rhs => rw [hd, dropEndWhile_append hw]
  symm
  apply dropEndWhile_eq_self
  intro c hc
  exact getLast?_dropEndWhile (getLast?_dropMark hc)

/-- The lines with no mark before the first. -/
def dropMarkLine : List Text → List Text
  | [] => []
  | l :: r => dropMark l :: r

/-- The mark of joined lines is that of the first. -/
theorem dropMark_unlines (ls : List Text) : dropMark (unlines ls) = unlines (dropMarkLine ls) := by
  cases ls with
  | nil => rfl
  | cons l r =>
    by_cases hr : r = []
    · rw [hr]
      rfl
    · rw [dropMarkLine, unlines_cons l hr, unlines_cons _ hr]
      exact dropMark_append rfl

theorem hasMark_unlines_cons (l : Text) (r : List Text) : hasMark (unlines (l :: r)) = hasMark l := by
  by_cases hr : r = []
  · rw [hr]
    rfl
  · rw [unlines_cons l hr]
    by_cases hl : l = []
    · rw [hl]
      rfl
    · exact hasMark_append hl _

/-- A mark before a text stands before its first row. -/
theorem hasMark_row {t l : Text} {r : List Text} (h : rows t = l :: r) : hasMark l = hasMark t := by
  obtain ⟨p, ps, hp⟩ := List.exists_cons_of_ne_nil (splitOn_ne_nil '\n' t)
  have hpt : hasMark p = hasMark t := by
    have ht := join_splitOn '\n' t
    rw [hp] at ht
    by_cases hps : ps = []
    · rw [hps] at ht
      rw [← ht, join]
    · rw [join_cons p hps] at ht
      by_cases he : p = []
      · rw [← ht, he]
        rfl
      · rw [← ht, hasMark_append he]
  have hlp : l = p ∨ l = dropReturn p := by
    unfold rows at h
    rw [hp] at h
    by_cases hps : ps = []
    · rw [hps, rowsOf] at h
      exact Or.inl (List.cons.inj h).1.symm
    · rw [rowsOf_cons p hps] at h
      exact Or.inr (List.cons.inj h).1.symm
  rw [← hpt]
  rcases hlp with rfl | rfl
  · rfl
  · rcases dropReturn_cases p with he | he
    · rw [← he]
    · by_cases hd : dropReturn p = []
      · rw [he, hd]
        rfl
      · conv_rhs => rw [he]
        rw [hasMark_append hd]

theorem rows_mark {t l : Text} {r : List Text} (h : rows t = l :: r) :
    rows ('\uFEFF' :: t) = ('\uFEFF' :: l) :: r :=
  rows_cons (by decide) (fun he => absurd he (by decide)) h

/-- Dropping the mark of a text is dropping that of its first row. -/
theorem rows_dropMark (t : Text) : rows (dropMark t) = dropMarkLine (rows t) := by
  obtain ⟨l, r, hl⟩ := List.exists_cons_of_ne_nil (rows_ne_nil (dropMark t))
  cases hm : hasMark t with
  | true =>
    conv_rhs => rw [eq_mark_cons hm]
    rw [rows_mark hl, hl, dropMarkLine, dropMark_mark]
  | false =>
    rw [dropMark_of_not hm] at hl ⊢
    rw [hl, dropMarkLine, dropMark_of_not ((hasMark_row hl).trans hm)]

theorem hasMark_line {t l : Text} {r : List Text} (h : lines t = l :: r) : hasMark l = hasMark t := by
  rcases rows_eq_lines t with he | he
  · exact hasMark_row (he.trans h)
  · exact hasMark_row (he.trans (by rw [h, List.cons_append]))

end Baselines.Text
