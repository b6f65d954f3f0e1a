import Baselines.Comparison
import Baselines.Json.Decode

/-!
# Reports

What became of each baseline of a run, and how many fared alike.
-/

namespace Baselines

/-! ## 1. Cases -/

/-- What became of one baseline. -/
inductive Status where
  | pass
  | mismatch
  | missingSource
  | emitFailed
  | nondeterministic
  | invalidFixture
  /-- A mismatch that was settled by writing the baseline anew. -/
  | updated
  deriving DecidableEq, Repr

namespace Status

def all : List Status :=
  [pass, mismatch, missingSource, emitFailed, nondeterministic, invalidFixture, updated]

/-- The spelling of a status in reports. -/
def label : Status → Text
  | pass => "pass"
  | mismatch => "mismatch"
  | missingSource => "missing_source"
  | emitFailed => "emit_failed"
  | nondeterministic => "nondeterministic"
  | invalidFixture => "invalid_fixture"
  | updated => "updated"

-- Whether a status makes the run fail.
def isFailure : Status → Bool
  | pass | updated => false
  | _ => true

end Status

/-- What became of one baseline, and why. -/
structure Case where
  id : Text
  /-- The path of the baseline below the root of the run. -/
  path : Text
  status : Status
  detail : Option Text
  diff : Option Text
  deriving DecidableEq, Repr

/-! ## 2. Counts -/

/-- How many cases there are, in all and of each status. -/
structure Tally where
  total : Nat
  passed : Nat
  mismatched : Nat
  missingSource : Nat
  emitFailed : Nat
  nondeterministic : Nat
  invalid : Nat
  updated : Nat
  deriving DecidableEq, Repr

namespace Tally

/-- How many of the cases have a status. -/
def count (cases : List Case) (status : Status) : Nat := cases.countP (·.status = status)

def ofCases (cases : List Case) : Tally :=
  { total := cases.length
    passed := count cases .pass
    mismatched := count cases .mismatch
    missingSource := count cases .missingSource
    emitFailed := count cases .emitFailed
    nondeterministic := count cases .nondeterministic
    invalid := count cases .invalidFixture
    updated := count cases .updated }

-- How many cases made the run fail.
def failures (t : Tally) : Nat :=
  t.mismatched + t.missingSource + t.emitFailed + t.nondeterministic + t.invalid

/-- Whether a case made the run fail. -/
def hasFailures (t : Tally) : Bool := 0 < t.failures

end Tally

/-- The outcome of a run. -/
structure Report where
  root : Text
  /-- The name of the emitter. -/
  emitter : Text
  mode : Mode
  tally : Tally
  cases : List Case
  deriving DecidableEq, Repr

namespace Report

def ofCases (root emitter : Text) (mode : Mode) (cases : List Case) : Report :=
  { root, emitter, mode, tally := Tally.ofCases cases, cases }

def failures (r : Report) : List Case := r.cases.filter (·.status.isFailure)

end Report

/-! ## 3. As JSON -/

namespace Tally

def toJson (t : Tally) : Json :=
  .obj [("total", .int t.total), ("passed", .int t.passed), ("mismatched", .int t.mismatched),
    ("missing_source", .int t.missingSource), ("emit_failed", .int t.emitFailed),
    ("nondeterministic", .int t.nondeterministic), ("invalid", .int t.invalid),
    ("updated", .int t.updated)]

def countField (name : Text) (put : Nat → Tally → Tally) : Json.Decode.Field Tally :=
  ⟨name, false, fun j t => (Json.Decode.natBelow (Nat.pow 2 64) "usize" j).map (put · t)⟩

def decode : Json.Decoder Tally :=
  Json.Decode.record "Summary"
    [countField "total" fun n t => { t with total := n },
      countField "passed" fun n t => { t with passed := n },
      countField "mismatched" fun n t => { t with mismatched := n },
      countField "missing_source" fun n t => { t with missingSource := n },
      countField "emit_failed" fun n t => { t with emitFailed := n },
      countField "nondeterministic" fun n t => { t with nondeterministic := n },
      countField "invalid" fun n t => { t with invalid := n },
      countField "updated" fun n t => { t with updated := n }]
    (ofCases [])

end Tally

namespace Case

/-- A case as JSON; what it does not have is left out. -/
def toJson (c : Case) : Json :=
  let more (name : Text) (t : Option Text) : List (Text × Json) :=
    (t.map fun t => (name, Json.str t)).toList
  let always : List (Text × Json) :=
    [("id", .str c.id), ("path", .str c.path), ("status", .str c.status.label)]
  .obj (always ++ more "detail" c.detail ++ more "diff" c.diff)

def decode : Json.Decoder Case :=
  let text := Json.Decode.text
  Json.Decode.record "CaseReport"
    [⟨"id", false, fun j c => (text j).map fun t => { c with id := t }⟩,
      ⟨"path", false, fun j c => (text j).map fun t => { c with path := t }⟩,
      ⟨"status", false, fun j c =>
        (Json.Decode.choice (Status.all.map fun s => (s.label, s)) j).map fun s =>
          { c with status := s }⟩,
      ⟨"detail", true, fun j c => (Json.Decode.option text j).map fun t => { c with detail := t }⟩,
      ⟨"diff", true, fun j c => (Json.Decode.option text j).map fun t => { c with diff := t }⟩]
    { id := [], path := [], status := .pass, detail := none, diff := none }

end Case

def Report.toJson (r : Report) : Json :=
  .obj [("fixtures_root", .str r.root), ("emitter", .str r.emitter), ("mode", .str r.mode.label),
    ("summary", r.tally.toJson), ("cases", .arr (r.cases.map Case.toJson))]

end Baselines
