import Baselines.Text.Basic

/-!
# Edit scripts

A script says how one list of lines becomes another: runs of lines that are kept, deleted or
inserted. Its two views are the lines before and the lines after.
-/

namespace Baselines.Diff

/-- What a run does with its lines. -/
inductive Action where
  | keep
  | delete
  | insert
  deriving DecidableEq, Repr

/-- A run of lines with one action. The two positions are those the run is reported at. -/
structure Edit where
  action : Action
  lines : List Text
  oldAt : Nat
  newAt : Nat
  deriving DecidableEq, Repr

namespace Edit

/-- The lines of the run in the list before. -/
def old (e : Edit) : List Text := if e.action = .insert then [] else e.lines

/-- The lines of the run in the list after. -/
def new (e : Edit) : List Text := if e.action = .delete then [] else e.lines

/-- The run moved by a number of lines towards the start. -/
def up (e : Edit) (n : Nat) (lines : List Text) : Edit :=
  ⟨e.action, lines, e.oldAt - n, e.newAt - n⟩

/-- The run moved by a number of lines towards the end. -/
def down (e : Edit) (n : Nat) (lines : List Text) : Edit :=
  ⟨e.action, lines, e.oldAt + n, e.newAt + n⟩

end Edit

/-- A sequence of runs. -/
abbrev Script := List Edit

namespace Script

/-- The lines before. -/
def old (s : Script) : List Text := s.flatMap Edit.old

/-- The lines after. -/
def new (s : Script) : List Text := s.flatMap Edit.new

end Script

/-- A script for two lists: its views are the lists. -/
structure Valid (s : Script) (old new : List Text) : Prop where
  old_eq : s.old = old
  new_eq : s.new = new

/-- How many lines two lists have in common at their start. -/
def commonLead : List Text → List Text → Nat
  | x :: s, y :: t => if x = y then commonLead s t + 1 else 0
  | _, _ => 0

/-- How many lines two lists have in common at their end. -/
def commonTail (s t : List Text) : Nat := commonLead s.reverse t.reverse

-- The common start is the same part of both lists.
theorem take_commonLead (s t : List Text) : s.take (commonLead s t) = t.take (commonLead s t) := by
  induction s generalizing t with
  | nil => simp [commonLead]
  | cons x s ih =>
    cases t with
    | nil => simp [commonLead]
    | cons y t =>
      by_cases h : x = y
      · simp [commonLead, h, ih]
      · simp [commonLead, h]

end Baselines.Diff
