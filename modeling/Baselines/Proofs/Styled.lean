import Baselines.Proofs.Text.Parts
import Baselines.Proofs.Text.Pieces
import Baselines.Styled

/-!
# What is read of styled text

A terminal reads a text as characters and as switches of styles between them. Of a styled text whose
parts hold no escape character it reads every part in its style, and without the switches the text is
the one that is written plainly.
-/

namespace Baselines

open Text

/-! ## 1. Switches in a text -/

/-- What a text consists of: characters, and escape sequences that switch styles by numbers. -/
inductive Glyph where
  | char (c : Char)
  | switch (numbers : Text)
  deriving DecidableEq, Repr

namespace Glyph

def char? : Glyph → Option Char
  | char c => some c
  | switch _ => none

/-- The numbers that a switch begins with, up to the letter that ends it. -/
def numbers? : Text → Option Text
  | [] => none
  | c :: r =>
    if c = 'm' then some []
    else if c.isDigit || c = ';' then (numbers? r).map (c :: ·)
    else none

/-- The numbers of the switch that a text begins with. -/
def switch? : Text → Option Text
  | '\x1b' :: '[' :: r => numbers? r
  | _ => none

-- The first argument counts the characters of the last switch that are still to be passed over.
def readFrom : Nat → Text → List Glyph
  | _, [] => []
  | n + 1, _ :: t => readFrom n t
  | 0, c :: t =>
    match switch? (c :: t) with
    | some ns => switch ns :: readFrom (ns.length + 2) t
    | none => char c :: readFrom 0 t

def read (t : Text) : List Glyph := readFrom 0 t

end Glyph

/-- The text without its switches. -/
def Text.withoutSwitches (t : Text) : Text := (Glyph.read t).filterMap Glyph.char?

namespace Glyph

variable {t u ns : Text}

theorem readFrom_length (t u : Text) : readFrom t.length (t ++ u) = read u := by
  induction t with
  | nil => rfl
  | cons c t ih => exact ih

theorem read_cons {c : Char} (h : c ≠ '\x1b') (t : Text) : read (c :: t) = char c :: read t := by
  have hs : switch? (c :: t) = none := by
    unfold switch?
    split
    · rename_i r he
      exact absurd (List.cons.inj he).1 h
    · rfl
  unfold read
  rw [readFrom, hs]

theorem read_append (h : '\x1b' ∉ t) (u : Text) : read (t ++ u) = t.map char ++ read u := by
  induction t with
  | nil => rfl
  | cons c t ih =>
    rw [List.mem_cons, not_or] at h
    rw [List.cons_append, read_cons (Ne.symm h.1), ih h.2, List.map_cons, List.cons_append]

theorem numbers?_append (h : ∀ c ∈ ns, c.isDigit || c = ';') (u : Text) :
    numbers? (ns ++ 'm' :: u) = some ns := by
  induction ns with
  | nil => rfl
  | cons c ns ih =>
    have hc := h c List.mem_cons_self
    have hm : c ≠ 'm' := by
      rintro rfl
      exact absurd hc (by decide)
    rw [List.cons_append, numbers?, if_neg hm, if_pos hc,
      ih fun x hx => h x (List.mem_cons_of_mem c hx)]
    rfl

/-- A switch is read as one. -/
theorem read_switch (h : ∀ c ∈ ns, c.isDigit || c = ';') (u : Text) :
    read ("\x1b[" ++ (ns ++ 'm' :: u)) = switch ns :: read u := by
  have hs : switch? ('\x1b' :: '[' :: (ns ++ 'm' :: u)) = some ns := numbers?_append h u
  have hlen : ns.length + 2 = ('[' :: (ns ++ ['m'])).length := by simp
  show readFrom 0 ('\x1b' :: '[' :: (ns ++ 'm' :: u)) = _
  rw [readFrom, hs]
  show switch ns :: readFrom (ns.length + 2) ('[' :: (ns ++ 'm' :: u)) = _
  rw [hlen, show '[' :: (ns ++ 'm' :: u) = '[' :: (ns ++ ['m']) ++ u by simp, readFrom_length]

end Glyph

/-! ## 2. Styles that are switched -/

namespace Style

/-- The style after a number: zero switches everything off, and one switches bold on. -/
def set (s : Style) (number : Text) : Style :=
  if number = ['0'] then plain
  else if number = ['1'] then { s with bold := true }
  else match [Colour.red, .green, .yellow, .cyan].find? (colourCode · = number) with
    | some c => { s with colour := some c }
    | none => s

/-- What a terminal shows: every character in the style that the switches before it have left. -/
def shown : Style → List Glyph → List (Style × Char)
  | _, [] => []
  | s, .char c :: gs => (s, c) :: shown s gs
  | s, .switch ns :: gs => shown ((splitOn ';' ns).foldl set s) gs

theorem shown_append (s : Style) (t : Text) (gs : List Glyph) :
    shown s (t.map .char ++ gs) = t.map (Prod.mk s) ++ shown s gs := by
  induction t with
  | nil => rfl
  | cons c t ih =>
    show (s, c) :: shown s (t.map .char ++ gs) = _
    rw [ih]
    rfl

theorem snd_shown (s : Style) (gs : List Glyph) :
    (shown s gs).map (·.2) = gs.filterMap Glyph.char? := by
  induction gs generalizing s with
  | nil => rfl
  | cons g gs ih =>
    cases g with
    | char c =>
      show c :: (shown s gs).map (·.2) = _
      rw [ih]
      rfl
    | switch ns => exact ih _

/-- The numbers that switch a style on. -/
def numbers (s : Style) : Text := join [';'] s.codes

theorem isDigit_numbers (s : Style) : ∀ c ∈ s.numbers, c.isDigit || c = ';' := by
  refine List.all_eq_true.1 ?_
  obtain ⟨_ | _, _ | _ | _ | _ | _⟩ := s <;> decide

theorem foldl_set_numbers (s : Style) (h : s ≠ plain) :
    (splitOn ';' s.numbers).foldl set plain = s := by
  obtain ⟨_ | _, _ | _ | _ | _ | _⟩ := s
  · exact absurd rfl h
  all_goals decide

theorem paint_eq {t : Text} (ht : '\x1b' ∉ t) {s : Style} (h : s ≠ plain) :
    s.paint t = "\x1b[" ++ (s.numbers ++ 'm' :: (t ++ closing)) := by
  have hc : ¬ closing <:+: t := fun hi => ht (hi.subset (by decide))
  unfold paint
  rw [if_neg h, replace_eq_self hc]
  simp [opening, numbers]

/-- A painted text is read in its style, and behind it nothing special is switched on. -/
theorem shown_paint {t : Text} (ht : '\x1b' ∉ t) (s : Style) (u : Text) :
    shown plain (Glyph.read (s.paint t ++ u)) =
      t.map (Prod.mk s) ++ shown plain (Glyph.read u) := by
  by_cases h : s = plain
  · rw [h, show plain.paint t = t from if_pos rfl, Glyph.read_append ht, shown_append]
  · have hclosing : Glyph.read (closing ++ u) = .switch ['0'] :: Glyph.read u :=
      @Glyph.read_switch ['0'] (List.all_eq_true.1 (by decide)) u
    have hread : Glyph.read (s.paint t ++ u) =
        .switch s.numbers :: (t.map .char ++ .switch ['0'] :: Glyph.read u) := by
      rw [paint_eq ht h]
      simp only [List.append_assoc, List.cons_append]
      rw [Glyph.read_switch s.isDigit_numbers, Glyph.read_append ht, hclosing]
    rw [hread, shown, foldl_set_numbers s h, shown_append]
    rfl

end Style

/-! ## 3. Styled texts -/

namespace Styled

/-- The characters of a styled text, each in the style of its part. -/
def letters (s : Styled) : List (Style × Char) := s.flatMap fun p => p.2.map (Prod.mk p.1)

/-- Whether no part of a styled text holds an escape character. -/
def IsClear (s : Styled) : Prop := ∀ p ∈ s, '\x1b' ∉ p.2

variable {s s' : Styled}

theorem letters_append (s s' : Styled) : letters (s ++ s') = letters s ++ letters s' :=
  List.flatMap_append

theorem snd_letters (s : Styled) : (letters s).map (·.2) = s.bare := by
  unfold letters bare
  rw [List.map_flatMap]
  simp [Function.comp_def]

/-- A terminal shows every part of a clear text in its style. -/
theorem shown_painted (h : IsClear s) : Style.shown .plain (Glyph.read s.painted) = letters s := by
  induction s with
  | nil => rfl
  | cons p s ih =>
    show Style.shown .plain (Glyph.read (p.1.paint p.2 ++ painted s)) = _
    rw [Style.shown_paint (h p List.mem_cons_self), ih fun q hq => h q (List.mem_cons_of_mem p hq)]
    rfl

/-- Without its switches a clear text that is coloured is the one that is not. -/
theorem withoutSwitches_painted (h : IsClear s) : withoutSwitches s.painted = s.bare := by
  unfold withoutSwitches
  rw [← Style.snd_shown .plain, shown_painted h, snd_letters]

theorem isClear_nil : IsClear [] := by simp [IsClear]

theorem isClear_append : IsClear (s ++ s') ↔ IsClear s ∧ IsClear s' := by
  simp only [IsClear, List.mem_append, or_imp, forall_and]

theorem isClear_plain {t : Text} : IsClear (plain t) ↔ '\x1b' ∉ t := by simp [IsClear, plain]

theorem isClear_styled {style : Style} {t : Text} : IsClear (styled style t) ↔ '\x1b' ∉ t := by
  simp [IsClear, styled]

theorem IsClear.join {sep : Styled} {ss : List Styled} (hsep : IsClear sep)
    (h : ∀ s ∈ ss, IsClear s) : IsClear (Text.join sep ss) := by
  intro p hp
  rcases mem_of_mem_join hp with hp | ⟨s, hs, hp⟩
  · exact hsep p hp
  · exact h s hs p hp

end Styled

end Baselines
