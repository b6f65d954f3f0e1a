import Baselines.Fixture
import Baselines.Emitter.Basic

/-!
# Authoring

New baselines for test sources: one for every configuration of the directives of a source and every
stage. The name of a baseline tells its target, the options that were declared with several values,
and its stage, of which the variant is the number.
-/

namespace Baselines

/-! ## 1. Names -/

/-- The number of a stage in the names of baselines. -/
def Stage.variant : Stage → Nat
  | .normal => 1
  | .minified => 2

def Name.authored (test : Text) (options : List (Text × Text)) (stage : Stage) : Name :=
  { test, options, variant := some stage.variant, stage := some stage, extension := "js" }

/-- What is authored, and where. -/
structure Authoring where
  sources : Path
  out : Path
  stages : List Stage
  /-- Whether baselines that are there already are kept. -/
  skipExisting : Bool := false

namespace Authoring

/-! ## 2. Jobs -/

/-- A baseline to be written: its name, its path, and the request for its code. -/
structure Job where
  name : Name
  path : Path
  request : Request
  deriving DecidableEq, Repr

/-- The keys of the options that were declared with several values. -/
def varying (d : Directives) : List Text :=
  d.options.keys.filter fun key => key ≠ ("target" : Text) ∧ 1 < (d.values key).length

def targetOf (config : Table Text) : Target :=
  ((config.get? "target").bind Target.parse?).getD .fallback

/-- The options that the name of a baseline tells of a configuration. -/
def nameOptions (d : Directives) (config : Table Text) : List (Text × Text) :=
  ("target", (targetOf config).label) ::
    (varying d).filterMap fun key => (config.get? key).map fun value => (key, value)

def markerName (path : Path) (test : Text) : Text := path.fileName?.getD (test ++ ".ts")

def job (a : Authoring) (test : Text) (source : Source) (config : Table Text) (stage : Stage) :
    Job :=
  let name := Name.authored test (nameOptions source.directives config) stage
  { name
    path := Path.append a.out name.render
    request :=
      { file := markerName source.path test
        source := source.text
        target := some (targetOf config)
        stage
        options := Request.optionsOf config } }

def jobs (a : Authoring) (test : Text) (source : Source) : List Job :=
  source.directives.configurations.flatMap fun config => a.stages.map (a.job test source config)

/-- The source in a file, all of whose targets have to be known. -/
def loadSource (d : Disk) (path : Path) : Except Trouble Source := do
  let source ← Source.load d path
  match source.directives.targets with
  | .ok _ => .ok source
  | .error fault => .error (.badFile path fault)

/-- The bytes of a baseline with the code that was emitted for a source. -/
def authoredBytes (file code : Text) : Bytes :=
  Encoding.utf8Encode (MarkedFile.single file (Text.trimEnd code)).render

/-! ## 3. Runs -/

/-- What was done. -/
structure Summary where
  written : List Path := []
  skipped : Nat := 0
  failed : List (Text × Text) := []
  deriving DecidableEq, Repr

variable {σ : Type}

/-- Does one job; a baseline that cannot be written ends the run. -/
def runJob (a : Authoring) (e : Emitter σ) (t : Summary) (j : Job) (s : σ × Disk) :
    Except Trouble Summary × (σ × Disk) :=
  -- the emitter is not asked for a baseline that is skipped
  if a.skipExisting ∧ s.2.has j.path then (.ok { t with skipped := t.skipped + 1 }, s)
  else match e.emit j.request s with
    | (.error fault, s) => (.ok { t with failed := t.failed ++ [(j.name.id, fault.message)] }, s)
    | (.ok code, (memory, d)) =>
      match d.write j.path (authoredBytes j.request.file code) with
      | .ok d => (.ok { t with written := t.written ++ [j.path] }, (memory, d))
      | .error x => (.error (.unwritable j.path x), (memory, d))

def runJobs (a : Authoring) (e : Emitter σ) :
    List Job → Summary → σ × Disk → Except Trouble Summary × (σ × Disk)
  | [], t, s => (.ok t, s)
  | j :: r, t, s =>
    match a.runJob e t j s with
    | (.ok t, s) => runJobs a e r t s
    | (.error x, s) => (.error x, s)

/-- Does the jobs of one source; a source that cannot be used is noted. -/
def runSource (a : Authoring) (e : Emitter σ) (t : Summary) (entry : Text × Path) (s : σ × Disk) :
    Except Trouble Summary × (σ × Disk) :=
  match loadSource s.2 entry.2 with
  | .error x => (.ok { t with failed := t.failed ++ [(entry.1, x.message)] }, s)
  | .ok source => a.runJobs e (a.jobs entry.1 source) t s

/-- Does the jobs of sources one after the other. -/
def runSources (a : Authoring) (e : Emitter σ) :
    List (Text × Path) → Summary → σ × Disk → Except Trouble Summary × (σ × Disk)
  | [], t, s => (.ok t, s)
  | entry :: r, t, s =>
    match a.runSource e t entry s with
    | (.ok t, s) => runSources a e r t s
    | (.error x, s) => (.error x, s)

/-- Writes the baselines of all sources. -/
def run (a : Authoring) (e : Emitter σ) (s : σ × Disk) : Except Trouble Summary × (σ × Disk) :=
  match SourceIndex.build s.2 a.sources with
  | .error x => (.error x, s)
  | .ok index =>
    match s.2.makeFolders a.out with
    | .error x => (.error (.unwritable a.out x), s)
    | .ok d => a.runSources e index {} (s.1, d)

end Authoring

end Baselines
