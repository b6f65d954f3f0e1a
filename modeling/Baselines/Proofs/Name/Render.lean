import Baselines.Proofs.Name.Parse
import Baselines.Proofs.Text.Pieces
import Mathlib.Data.List.Count

/-!
# Reading what was written as a name

A name that tells its variant and its stage is read from its file name as it was written, when its
options can be told apart there and the file name is read as the name of a baseline at all.
-/

namespace Baselines.Name

open Text

/-! ## 1. Options -/

/-- Whether an option is read again from where it stands in a name: the key ends at the first `=`,
the value at the next comma, and blanks around them do not count. -/
structure Legible (o : Text × Text) : Prop where
  key : trim o.1 = o.1
  value : trim o.2 = o.2
  equals : '=' ∉ o.1
  keyComma : ',' ∉ o.1
  valueComma : ',' ∉ o.2

variable {o : Text × Text} {os : List (Text × Text)} {name : Text}

namespace Legible

theorem trim_writeOption (h : Legible o) : trim (writeOption o) = writeOption o := by
  have hhead := (trim_eq_self_iff.1 h.key).1
  have hlast := (trim_eq_self_iff.1 h.value).2
  refine trim_eq_self_iff.2 ⟨fun c hc => ?_, fun c hc => ?_⟩
  · rw [writeOption, List.head?_append] at hc
    cases hk : o.1.head? with
    | some x =>
      rw [hk, Option.some_or, Option.some.injEq] at hc
      exact hhead c (hc ▸ hk)
    | none =>
      rw [hk, Option.none_or, List.head?_cons, Option.some.injEq] at hc
      rw [← hc]
      decide
  · rw [writeOption, List.getLast?_append, List.getLast?_cons] at hc
    cases hv : o.2.getLast? with
    | some x =>
      rw [hv, Option.getD_some, Option.some_or, Option.some.injEq] at hc
      exact hlast c (hc ▸ hv)
    | none =>
      rw [hv, Option.getD_none, Option.some_or, Option.some.injEq] at hc
      rw [← hc]
      decide

theorem not_mem_writeOption (h : Legible o) : ',' ∉ writeOption o := by
  intro hm
  rcases List.mem_append.1 hm with hm | hm
  · exact h.keyComma hm
  · rcases List.mem_cons.1 hm with hm | hm
    · exact absurd hm (by decide)
    · exact h.valueComma hm

end Legible

theorem writeOption_ne_nil (o : Text × Text) : writeOption o ≠ [] := by
  simp [writeOption]

-- Legible options are read as they were written.
theorem readOptions_written (h : ∀ o ∈ os, Legible o) :
    readOptions name (os.map writeOption) = .ok os := by
  induction os with
  | nil => rfl
  | cons o r ih =>
    have ho := h o List.mem_cons_self
    have hsplit : splitFirst? '=' (writeOption o) = some o := splitFirst?_append ho.equals o.2
    rw [List.map_cons, readOptions]
    simp only [ho.trim_writeOption, if_neg (writeOption_ne_nil o), hsplit,
      ih fun x hx => h x (List.mem_cons_of_mem o hx), Except.map, ho.key, ho.value]

theorem splitOn_written (hne : os ≠ []) (h : ∀ o ∈ os, Legible o) :
    splitOn ',' (join [','] (os.map writeOption)) = os.map writeOption := by
  apply splitOn_join
  · intro he
    exact hne (List.map_eq_nil_iff.1 he)
  · intro p hp
    obtain ⟨o, ho, rfl⟩ := List.mem_map.1 hp
    exact (h o ho).not_mem_writeOption

/-! ## 2. Stems -/

/-- A stem with parentheses at its end is only read when they are its only ones, but for closing
ones before them. -/
theorem splitStem_parentheses {test inner test' : Text} :
    splitStem name (test ++ '(' :: (inner ++ [')'])) = .ok (test', os) ↔
      test' = test ∧ '(' ∉ test ∧ '(' ∉ inner ∧ ')' ∉ inner ∧
        readOptions name (splitOn ',' inner) = .ok os := by
  constructor
  · intro h
    rcases splitStem_ok h with ⟨-, -, hopen, -⟩ | ⟨inner', he, htest, hinner, hclose, hr⟩
    · exact absurd (List.mem_append_right test List.mem_cons_self) hopen
    · rw [← List.cons_append, ← List.cons_append, ← List.append_assoc, ← List.append_assoc] at he
      have he := List.append_cancel_right he
      -- counting the opening ones: there is one on the right, so there is no other on the left
      have hcount := congrArg (List.count '(') he
      rw [List.count_append, List.count_append, List.count_cons_self, List.count_cons_self,
        List.count_eq_zero.2 htest, List.count_eq_zero.2 hinner] at hcount
      have hopen : '(' ∉ test := List.count_eq_zero.1 (by omega)
      have hs := congrArg (splitFirst? '(') he
      rw [splitFirst?_append hopen, splitFirst?_append htest, Option.some.injEq,
        Prod.mk.injEq] at hs
      rw [hs.1, hs.2]
      exact ⟨rfl, htest, hinner, hclose, hr⟩
  · rintro ⟨rfl, hopen, hinner, hclose, hr⟩
    have htail : dropTail? [')'] (inner ++ [')']) = some inner := dropTail?_eq_some.2 rfl
    simp only [splitStem, splitFirst?_append hopen, htail, hinner, hclose, or_self, if_false, hr,
      Except.map]

/-! ## 3. Names -/

theorem peel_piece {α : Type} {read : Text → Option α} {piece : Text} {a : α} (hp : '.' ∉ piece)
    (hr : read piece = some a) (front : Text) :
    peel read (front ++ '.' :: piece) = (front, some a) := by
  simp only [peel, splitLast?_append front hp, hr]

theorem stage?_label (s : Stage) : stage? s.label = some s := by
  cases s <;> decide +kernel

theorem not_mem_label (s : Stage) : '.' ∉ s.label := by
  cases s <;> decide

theorem not_mem_ofNat (v : Nat) : '.' ∉ Text.ofNat v := Text.not_mem_digits (by decide) v

theorem not_mem_extension {extension : Text} (h : extension ∈ extensions) : '.' ∉ extension := by
  have hall : ∀ e ∈ extensions, '.' ∉ e := by decide
  exact hall extension h

/-- The test and the options as they stand in a name. -/
def stem (n : Name) : Text :=
  n.test ++
    if n.options = [] then [] else '(' :: Text.join [','] (n.options.map writeOption) ++ [')']

variable {n m : Name} {v : Nat} {s : Stage}

theorem render_eq (hv : n.variant = some v) (hs : n.stage = some s) :
    n.render = ((n.stem ++ '.' :: Text.ofNat v) ++ '.' :: s.label) ++ '.' :: n.extension := by
  simp only [render, id, stem, hv, hs, List.append_assoc]

-- What a name with a variant and a stage is read as.
theorem parse_render_ok (hv : n.variant = some v) (hs : n.stage = some s)
    (hr : variant? (Text.ofNat v) = some v) (he : n.extension ∈ extensions)
    (h : parse n.render = .ok m) :
    splitStem n.render n.stem = .ok (m.test, m.options) ∧ m.variant = n.variant ∧
      m.stage = n.stage ∧ m.extension = n.extension := by
  obtain ⟨stem, staged, varied, hlast, -, hstage, hvariant, hstem, -⟩ := parse_eq_ok.1 h
  rw [render_eq hv hs, splitLast?_append _ (not_mem_extension he), Option.some.injEq,
    Prod.mk.injEq] at hlast
  rw [← hlast.1, peel_piece (not_mem_label s) (stage?_label s), Prod.mk.injEq] at hstage
  rw [← hstage.1, peel_piece (not_mem_ofNat v) hr, Prod.mk.injEq] at hvariant
  rw [← hvariant.1] at hstem
  exact ⟨hstem, by rw [hv, ← hvariant.2], by rw [hs, ← hstage.2], hlast.2.symm⟩

/-- A name with a variant, a stage and legible options is read as it was written. -/
theorem eq_of_parse_render (hv : n.variant = some v) (hs : n.stage = some s)
    (hr : variant? (Text.ofNat v) = some v) (he : n.extension ∈ extensions)
    (hne : n.options ≠ []) (hl : ∀ o ∈ n.options, Legible o) (h : parse n.render = .ok m) :
    m = n := by
  obtain ⟨hstem, hvariant, hstage, hextension⟩ := parse_render_ok hv hs hr he h
  rw [stem, if_neg hne, List.cons_append] at hstem
  obtain ⟨htest, -, -, -, hoptions⟩ := splitStem_parentheses.1 hstem
  rw [splitOn_written hne hl, readOptions_written hl, Except.ok.injEq] at hoptions
  cases m
  cases n
  simp_all only

end Baselines.Name
