import Baselines.Report
import Baselines.Styled

/-!
# Presentation

How reports, comparisons and the outcome of authoring are shown to a reader.
-/

namespace Baselines.Presentation

/-! ## 1. Cases -/

def word : Status → Text
  | .pass => "PASS"
  | .mismatch => "FAIL"
  | .missingSource => "MISSING"
  | .emitFailed => "ERROR"
  | .nondeterministic => "UNSTABLE"
  | .invalidFixture => "INVALID"
  | .updated => "UPDATED"

def style : Status → Style
  | .pass => .of .green
  | .updated => .of .cyan
  | .missingSource => .of .yellow
  | _ => .boldOf .red

-- The text with blanks after it, up to a width.
def padded (width : Nat) (t : Text) : Text := t ++ List.replicate (width - t.length) ' '

/-- A status in a column of its own. -/
def status (s : Status) : Styled := Styled.styled (style s) (padded 8 (word s))

def diffLineStyle (line : Text) : Style :=
  if Text.startsWith line "+++" || Text.startsWith line "---" then .strong
  else if Text.startsWith line "@@" then .of .cyan
  else if Text.startsWith line "+" then .of .green
  else if Text.startsWith line "-" then .of .red
  else .plain

def diffLine (line : Text) : Styled :=
  Styled.plain "    " ++ Styled.styled (diffLineStyle line) line

def diff (d : Text) : Styled := Text.join (Styled.plain "\n") ((Text.lines d).map diffLine)

/-- A case on a line, with its diff below; a case that passed shows no diff. -/
def case (c : Case) : Styled :=
  status c.status ++ Styled.plain (' ' :: c.path) ++
    (match c.detail with
      | some d => Styled.plain (": " ++ d)
      | none => []) ++
    match c.diff with
    | some d => if c.status = .pass then [] else Styled.plain "\n" ++ diff d
    | none => []

/-! ## 2. Reports -/

/-- The counts that are not zero, each with its label. -/
def counts (t : Tally) : List Text :=
  let labelled : List (Nat × Text) :=
    [(t.mismatched, "mismatched"), (t.missingSource, "missing source"),
      (t.emitFailed, "emit failed"), (t.nondeterministic, "nondeterministic"),
      (t.invalid, "invalid"), (t.updated, "updated")]
  (Text.ofNat t.passed ++ " passed") ::
    (labelled.filter fun p => 0 < p.1).map fun p => Text.ofNat p.1 ++ ' ' :: p.2

def verdict (t : Tally) : Styled :=
  if t.hasFailures then Styled.styled (.boldOf .red) "FAILED"
  else Styled.styled (.boldOf .green) "ok"

/-- The verdict on a run and its counts, on a line. -/
def tally (t : Tally) : Styled :=
  verdict t ++
    Styled.plain (": " ++ Text.ofNat t.total ++ " baselines; " ++ Text.join ", " (counts t))

/-- The cases that are shown: all of them, or those that did not just pass. -/
def shown (verbose : Bool) (cases : List Case) : List Case :=
  cases.filter fun c => verbose || c.status ≠ .pass

/-- The shown cases of a report, and its counts below an empty line. -/
def report (verbose : Bool) (r : Report) : Styled :=
  let lines := (shown verbose r.cases).flatMap fun c => case c ++ Styled.plain "\n"
  (if lines = [] then [] else lines ++ Styled.plain "\n") ++ tally r.tally

/-! ## 3. Comparisons -/

/-- The verdict on a comparison, with the diff below. -/
def comparison (c : Comparison) : Styled :=
  let how : Text := " (" ++ c.mode.label ++ " comparison)"
  match c.mismatch with
  | none => Styled.styled (.of .green) ("identical" ++ how)
  | some m =>
    let place : Text :=
      match m.firstLine with
      | some n => " at line " ++ Text.ofNat n
      | none => []
    Styled.styled (.boldOf .red) ("differs" ++ place ++ how) ++ Styled.plain "\n" ++ diff m.diff

/-! ## 4. Authoring -/

/-- The failures of authoring, each on a line, and the counts. -/
def authored (written skipped : Nat) (failed : List (Text × Text)) : Styled :=
  (failed.flatMap fun f =>
    Styled.styled (.boldOf .red) "ERROR" ++ Styled.plain (' ' :: f.1 ++ ": " ++ f.2 ++ ['\n'])) ++
    Styled.plain (Text.ofNat written ++ " written, " ++ Text.ofNat skipped ++ " skipped, " ++
      Text.ofNat failed.length ++ " failed")

end Baselines.Presentation
