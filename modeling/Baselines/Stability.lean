import Baselines.Diff.Hunk
import Baselines.Emitter.Basic

/-!
# Stability

An emitter is stable on a request if it gives the same code each time it is asked.
-/

namespace Baselines

/-- Why no stable code was given. -/
inductive Instability where
  | emit (fault : EmitFault)
  | diverged (run : Nat) (diff : Text)
  deriving DecidableEq, Repr

namespace Instability

/-- The sentence that reports an instability. -/
def message : Instability → Text
  | emit fault => fault.message
  | diverged run _ => "run " ++ Text.ofNat run ++ " produced different output than run 1"

end Instability

namespace Stability

variable {τ : Type}

/-- Asks so many more times, the next being of the number `run`, and compares with the first
code. -/
def askAgain (ask : τ → Answer × τ) (first : Text) : Nat → Nat → τ → Except Instability Text × τ
  | 0, _, s => (.ok first, s)
  | n + 1, run, s =>
    match ask s with
    | (.error fault, s) => (.error (.emit fault), s)
    | (.ok code, s) =>
      if code = first then askAgain ask first n (run + 1) s
      else (.error (.diverged run (Diff.unified first code Diff.usualContext).1), s)

/-- Asks `runs` times, and twice at least. The code of the first run is given if the others
agree. -/
def check (ask : τ → Answer × τ) (runs : Nat) (s : τ) : Except Instability Text × τ :=
  match ask s with
  | (.error fault, s) => (.error (.emit fault), s)
  | (.ok first, s) => askAgain ask first (max runs 2 - 1) 2 s

end Stability

end Baselines
