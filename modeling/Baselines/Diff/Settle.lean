import Baselines.Diff.Search

/-!
# Settling a script

A run of insertions next to kept lines can often slide over them without a change of the views. Each
run slides towards the start and joins its like there, and then towards the end.
-/

namespace Baselines.Diff

/-- A script with one run picked out: the runs before it, nearest first, the run, and the runs
after. -/
structure Focus where
  before : List Edit
  here : Edit
  after : List Edit

namespace Focus

def script (f : Focus) : Script := f.before.reverse ++ f.here :: f.after

-- How far an insertion can slide over kept lines before it; a deletion does not slide.
def slack (common : List Text → List Text → Nat) (here : Edit) (kept : List Text) : Nat :=
  if here.action = .insert then common kept here.lines else 0

-- The run slid and joined towards the start, by at most so many moves.
def slideUp : Nat → Focus → Focus
  | 0, f => f
  | n + 1, f =>
    match f.before with
    | [] => f
    | e :: before =>
      if e.action = .keep then
        let k := slack commonTail f.here e.lines
        if 0 < k then
          -- the kept lines that the insertion passes come after it
          let moved := e.lines.drop (e.lines.length - k)
          let passed : Edit :=
            ⟨.keep, moved, e.oldAt + e.lines.length - k,
              f.here.newAt + f.here.lines.length - k⟩
          let after :=
            match f.after with
            | a :: r =>
              if a.action = .keep then a.up k (moved ++ a.lines) :: r else passed :: a :: r
            | [] => [passed]
          let here := f.here.up k (moved ++ f.here.lines.take (f.here.lines.length - k))
          let kept := e.lines.take (e.lines.length - k)
          let before := if kept = [] then before else { e with lines := kept } :: before
          slideUp n ⟨before, here, after⟩
        else f
      else if e.action = f.here.action then
        slideUp n ⟨before, { e with lines := e.lines ++ f.here.lines }, f.after⟩
      else slideUp n ⟨before, f.here, e :: f.after⟩

-- The run slid and joined towards the end, by at most so many moves.
def slideDown : Nat → Focus → Focus
  | 0, f => f
  | n + 1, f =>
    match f.after with
    | [] => f
    | e :: after =>
      if e.action = .keep then
        let k := slack commonLead f.here e.lines
        if 0 < k then
          -- the kept lines that the insertion passes come before it
          let moved := e.lines.take k
          let before :=
            match f.before with
            | b :: r =>
              if b.action = .keep then { b with lines := b.lines ++ moved } :: r
              else ⟨.keep, moved, e.oldAt, f.here.newAt⟩ :: b :: r
            | [] => [⟨.keep, moved, e.oldAt, f.here.newAt⟩]
          let here := f.here.down k (f.here.lines.drop k ++ moved)
          let kept := e.lines.drop k
          let after := if kept = [] then after else e.down k kept :: after
          slideDown n ⟨before, here, after⟩
        else f
      else if e.action = f.here.action then
        slideDown n ⟨f.before, { f.here with lines := f.here.lines ++ e.lines }, after⟩
      else slideDown n ⟨e :: f.before, f.here, after⟩

end Focus

-- The runs with one action slid, from the first to the last; `moves` bounds the moves of a run.
def settleAction (action : Action) (moves : Nat) : Nat → List Edit → List Edit → Script
  | 0, before, after => before.reverse ++ after
  | _ + 1, before, [] => before.reverse
  | n + 1, before, e :: after =>
    if e.action = action then
      let f := Focus.slideDown moves (Focus.slideUp moves ⟨before, e, after⟩)
      settleAction action moves n (f.here :: f.before) f.after
    else settleAction action moves n (e :: before) after

/-- The script with its deletions and then its insertions slid. -/
def settle (s : Script) : Script :=
  let moves := 2 * (s.old.length + s.new.length) + 2
  let s := settleAction .delete moves (2 * s.length + 2) [] s
  settleAction .insert moves (2 * s.length + 2) [] s

end Baselines.Diff
