import Baselines.Disk.Basic

/-!
# Processes

What a program leaves behind when it ends: what it wrote, what it complained of, and how it ended.
-/

namespace Baselines

/-- How a process ended. -/
inductive Ending where
  | exit (code : Nat)
  | signal (number : Nat)
  deriving DecidableEq, Repr

namespace Ending

def signals : List (Nat × Text) :=
  ([(1, "HUP"), (2, "INT"), (3, "QUIT"), (4, "ILL"), (5, "TRAP"), (6, "ABRT"), (7, "BUS"),
    (8, "FPE"), (9, "KILL"), (10, "USR1"), (11, "SEGV"), (12, "USR2"), (13, "PIPE"), (14, "ALRM"),
    (15, "TERM")] : List (Nat × String)).map fun p => (p.1, p.2.toList)

/-- The sentence that tells how a process ended. -/
def text : Ending → Text
  | exit code => "exit status: " ++ Text.ofNat code
  | signal n =>
    "signal: " ++ Text.ofNat n ++
      match signals.find? (·.1 = n) with
      | some p => " (SIG" ++ p.2 ++ [')']
      | none => []

end Ending

/-- What a process left behind. -/
structure Outcome where
  output : Bytes := []
  complaint : Bytes := []
  ending : Ending := .exit 0
  deriving DecidableEq, Repr

namespace Outcome

/-- A process that wrote and ended well. -/
def wrote (output : Bytes) : Outcome := { output }

def failed (code : Nat) (complaint : Text) : Outcome :=
  { complaint := Encoding.utf8Encode complaint, ending := .exit code }

/-- Whether the process ended well. -/
def succeeded (o : Outcome) : Bool := o.ending = .exit 0

end Outcome

end Baselines
