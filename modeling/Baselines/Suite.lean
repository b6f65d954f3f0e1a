import Baselines.Comparison
import Baselines.Fixture
import Baselines.Report
import Baselines.Stability

/-!
# Suites

A suite asks an emitter for the code of every baseline that is covered, compares it with the
baseline, and reports. When it updates, it writes the new code into baselines that differ.
-/

namespace Baselines

/-- What a suite covers, and how. -/
structure Suite where
  root : Path
  /-- The folder of sources; without it they are beside the baselines. -/
  sources : Option Path := none
  selection : Selection := {}
  mode : Mode := .exact
  /-- How often each baseline is emitted. -/
  runs : Nat := 1
  /-- How many baselines are worked on at once, if that was said. -/
  jobs : Option Nat := none
  update : Bool := false

namespace Suite

variable {σ : Type}

/-! ## 1. One case -/

/-- What came out for a baseline. -/
structure Verdict where
  status : Status
  detail : Option Text := none
  diff : Option Text := none
  deriving DecidableEq, Repr

def Verdict.toCase (v : Verdict) (f : Found) : Case :=
  { id := f.name.id, path := f.relative, status := v.status, detail := v.detail, diff := v.diff }

/-- The fixture at a path and its request, or the verdict if there is none. -/
def ready (d : Disk) (index : Option SourceIndex) (path : Path) :
    Except Verdict (Fixture × Request) :=
  match Fixture.load d index path with
  | .error t => .error { status := .invalidFixture, detail := some t.message }
  | .ok fixture =>
    match fixture.request with
    | .error t => .error { status := .invalidFixture, detail := some t.message }
    | .ok none =>
      let detail : Text := "no source found for '" ++ fixture.name.sourceName ++ ['\'']
      .error { status := .missingSource, detail := some detail }
    | .ok (some request) => .ok (fixture, request)

/-- The code for a request, or the verdict if there is none. -/
def emitted (e : Emitter σ) (runs : Nat) (request : Request) (s : σ × Disk) :
    Except Verdict Text × (σ × Disk) :=
  -- one run has nothing to agree with
  if 1 < runs then
    match Stability.check (e.emit request) runs s with
    | (.ok code, s) => (.ok code, s)
    | (.error (.emit fault), s) =>
      (.error { status := .emitFailed, detail := some fault.message }, s)
    | (.error (.diverged run diff), s) =>
      let detail := (Instability.diverged run diff).message
      (.error { status := .nondeterministic, detail := some detail, diff := some diff }, s)
  else
    match e.emit request s with
    | (.ok code, s) => (.ok code, s)
    | (.error fault, s) => (.error { status := .emitFailed, detail := some fault.message }, s)

-- The sentence that reports a difference.
def differenceDetail (m : Mismatch) : Text :=
  match m.firstLine with
  | some line =>
    "output differs from baseline at line " ++ Text.ofNat line ++
      " (+" ++ Text.ofNat m.stats.inserted ++ " -" ++ Text.ofNat m.stats.deleted ++ [')']
  | none => "output differs from baseline"

/-- The bytes of a baseline whose code is given anew. -/
def blessed (fixture : Fixture) (code : Text) : Bytes :=
  Encoding.utf8Encode (fixture.file.withCode code).render

/-- The verdict on the code that was emitted for a baseline, and the disk after it. -/
def judge (suite : Suite) (fixture : Fixture) (code : Text) (d : Disk) : Verdict × Disk :=
  match (Comparison.compare fixture.expected code suite.mode).mismatch with
  | none => ({ status := .pass }, d)
  | some m =>
    if suite.update then
      match d.write fixture.path (blessed fixture code) with
      | .ok d => ({ status := .updated }, d)
      | .error e =>
        let detail := (Trouble.unwritable fixture.path e).message
        ({ status := .mismatch, detail := some detail, diff := some m.diff }, d)
    else ({ status := .mismatch, detail := some (differenceDetail m), diff := some m.diff }, d)

/-- The verdict on one baseline, and what is left after it. -/
def verdict (suite : Suite) (e : Emitter σ) (index : Option SourceIndex) (path : Path)
    (s : σ × Disk) : Verdict × (σ × Disk) :=
  match ready s.2 index path with
  | .error v => (v, s)
  | .ok (fixture, request) =>
    match emitted e suite.runs request s with
    | (.error v, s) => (v, s)
    | (.ok code, (memory, d)) =>
      let (v, d) := suite.judge fixture code d
      (v, (memory, d))

/-! ## 2. All cases -/

/-- The cases of baselines, one after the other. -/
def runAll (suite : Suite) (e : Emitter σ) (index : Option SourceIndex) :
    List Found → σ × Disk → List Case × (σ × Disk)
  | [], s => ([], s)
  | f :: r, s =>
    let (v, s) := suite.verdict e index f.path s
    let (cases, s) := runAll suite e index r s
    (v.toCase f :: cases, s)

/-- The index of the sources, if they have a folder of their own. -/
def index (suite : Suite) (d : Disk) : Except Trouble (Option SourceIndex) :=
  match suite.sources with
  | none => .ok none
  | some root => (SourceIndex.build d root).map some

def reportOf (suite : Suite) (emitter : Text) (cases : List Case) : Report :=
  Report.ofCases suite.root emitter suite.mode
    (cases.mergeSort fun a b => Text.before a.path b.path)

/-- What a suite works on: the index of the sources and the baselines that are covered. -/
def scope (suite : Suite) (d : Disk) : Except Trouble (Option SourceIndex × List Found) := do
  let index ← suite.index d
  return (index, ← Discovery.baselines d suite.root suite.selection)

def run (suite : Suite) (e : Emitter σ) (s : σ × Disk) : Except Trouble Report × (σ × Disk) :=
  match suite.scope s.2 with
  | .error t => (.error t, s)
  | .ok (index, found) =>
    let (cases, s) := suite.runAll e index found s
    (.ok (suite.reportOf e.name cases), s)

end Suite

/-! ## 3. A single file -/

def Comparison.ofFiles (d : Disk) (fixture actual : Path) (mode : Mode) :
    Except Trouble Comparison := do
  let expected ← d.readText fixture
  let code ← d.readText actual
  return compare expected code mode

end Baselines
