import Baselines.Proofs.Authoring.Run
import Baselines.Proofs.Suite.Update
import Baselines.Proofs.Text.ByteOrder

/-!
# Authored baselines

A baseline that was written holds the code of the last job that wrote to its place. A suite that
sends the same request finds it passing, if authoring keeps the code.
-/

namespace Baselines.Authoring

open Text MarkedFile

variable {a : Authoring} {name : Text} {answer : Request → Answer} {d d' : Disk}

/-! ## 1. What was written -/

/-- The file at a place was written with the code that the emitter gave for a job. -/
structure Holds (a : Authoring) (answer : Request → Answer) (d : Disk) (p : Place) (j : Job)
    (o : Text) : Prop where
  job : ∃ test source, j ∈ a.jobs test source
  answered : answer j.request = .ok o
  place : d.locate j.path = .ok p
  bytes : d.node? p = some (.file (authoredBytes j.request.file o))

-- Every path that was written leads to a file that some job has written last.
def AllHeld (a : Authoring) (answer : Request → Answer) (t : Summary) (d : Disk) : Prop :=
  ∀ path ∈ t.written, ∃ p j o, d.locate path = .ok p ∧ Holds a answer d p j o

/-- A write of a job keeps what the others have written elsewhere. -/
theorem AllHeld.write {t : Summary} (h : AllHeld a answer t d) {j : Job} {o : Text}
    (hj : ∃ test source, j ∈ a.jobs test source) (ho : answer j.request = .ok o)
    (hw : d.write j.path (authoredBytes j.request.file o) = .ok d') :
    AllHeld a answer { t with written := t.written ++ [j.path] } d' := by
  obtain ⟨p, hp, hsame, hn, hother⟩ := Disk.sameFolders_write hw
  have hp' := hsame.locate_of_ok hp
  have hnew : Holds a answer d' p j o := ⟨hj, ho, hp', hn⟩
  intro path hpath
  rcases List.mem_append.1 hpath with hpath | hpath
  · obtain ⟨q, k, u, hq, hk⟩ := h path hpath
    by_cases he : q = p
    · exact ⟨p, j, o, hsame.locate_of_ok (he ▸ hq), hnew⟩
    · refine ⟨q, k, u, hsame.locate_of_ok hq, hk.job, hk.answered, hsame.locate_of_ok hk.place, ?_⟩
      rw [hother q he, hk.bytes]
  · rw [List.mem_singleton] at hpath
    exact ⟨p, j, o, hpath ▸ hp', hnew⟩

theorem allHeld_runJob {t t' : Summary} {s s' : Unit × Disk} {j : Job}
    (hj : ∃ test source, j ∈ a.jobs test source) (h : AllHeld a answer t s.2)
    (hr : a.runJob (Emitter.ofFunction name answer) t j s = (.ok t', s')) :
    AllHeld a answer t' s'.2 := by
  have hdoes := does_runJob a (Emitter.ofFunction name answer) t j s
  rw [hr] at hdoes
  cases hdoes with
  | skipped _ => exact h
  | failed _ he =>
    obtain ⟨-, rfl⟩ := Prod.mk.inj he
    exact h
  | written _ he hw =>
    obtain ⟨ho, rfl⟩ := Prod.mk.inj he
    exact h.write hj ho hw

-- What an authoring has written is there when it ends.
theorem allHeld_run {t : Summary}
    (hr : a.run (Emitter.ofFunction name answer) ((), d) = (.ok t, ((), d'))) :
    AllHeld a answer t d' := by
  obtain ⟨index, e, -, -, hruns⟩ := run_ok hr
  have hjob : ∀ entry ∈ index, ∀ source, SourceOf entry source → ∀ j ∈ a.jobs entry.1 source,
      ∀ t s t' s', AllHeld a answer t s.2 →
        a.runJob (Emitter.ofFunction name answer) t j s = (.ok t', s') →
        AllHeld a answer t' s'.2 :=
    fun entry _ source _ j hj t s t' s' h hr => allHeld_runJob ⟨entry.1, source, hj⟩ h hr
  exact runSources_invariant (P := fun t s => AllHeld a answer t s.2) (fun _ _ _ _ _ h => h) hjob
    (fun path hp => absurd hp List.not_mem_nil) hruns

/-! ## 2. Checking what was written -/

theorem fileName?_ne_nil {path : Path} {s : Text} (h : path.fileName? = some s) : s ≠ [] := by
  unfold Path.fileName? Path.lastStep? at h
  rw [Option.filter_eq_some_iff] at h
  have hidle := List.head?_dropWhile_not (Path.isIdle '.') (splitOn '/' path).reverse
  rw [h.1] at hidle
  intro he
  rw [he] at hidle
  exact absurd hidle (by decide)

-- The marker of a job names something.
theorem file_ne_nil {test : Text} {source : Source} {j : Job} (h : j ∈ a.jobs test source) :
    j.request.file ≠ [] := by
  obtain ⟨config, -, stage, -, rfl⟩ := mem_jobs.1 h
  show (source.path.fileName?).getD (test ++ ".ts") ≠ []
  cases hn : source.path.fileName? with
  | none =>
    rw [Option.getD_none]
    simp
  | some s => exact fileName?_ne_nil hn

-- The verdict on a baseline that holds the code of a job, for a request with the same answer.
theorem verdict_pass_iff {suite : Suite} (hm : suite.mode = .exact) {index : Option SourceIndex}
    {f : Found} {p : Place} {j : Job} {o baseline : Text} {r : Request}
    (hname : Name.ofPath f.path = .ok f.name) (hp : d.locate f.path = .ok p)
    (hh : Holds a answer d p j o) (hfile : Markable j.request.file)
    (hs : Suite.Sent d index f baseline r) (hr : answer r = .ok o) :
    (suite.verdict (Emitter.ofFunction name answer) index f.path ((), d)).1.status = .pass ↔
      Comparison.KeptByAuthoring o := by
  have htext : d.readText f.path = .ok (single j.request.file (trimEnd o)).render := by
    apply Disk.readText_eq_ok.2
    refine ⟨_, Disk.read_eq_ok.2 ⟨p, hp, hh.bytes⟩, ?_⟩
    unfold authoredBytes
    rw [Encoding.read_utf8Encode, dropMark_render_single]
  have hbaseline : baseline = (single j.request.file (trimEnd o)).render :=
    Except.ok.inj (hs.readText.symm.trans htext)
  obtain ⟨fixture, hready, hf⟩ := hs.ready_ok hname
  have hexp : fixture.expected = (parse (single j.request.file (trimEnd o)).render).code := by
    unfold Fixture.expected
    rw [hf, hbaseline]
  rw [Suite.verdict_ofFunction suite name answer hready hr, Suite.judge_pass_iff, hexp, hm,
    Comparison.isMatch_exact]
  exact Comparison.normalize_authored hfile o

/-- A baseline expects the output that it was authored with exactly when authoring keeps it. So after
an authoring, with an emitter whose answers depend on the requests only, a suite in the exact mode
that sends the request of the baseline again, or another one with the same answer, lets the baseline
pass exactly then. -/
theorem check_after_authoring (a : Authoring) (name : Text) (answer : Request → Answer) :
    (∀ file o : Text, file ≠ [] → ']' ∉ file → '\n' ∉ file →
      ((Comparison.compare (parse (single file (trimEnd o)).render).code o .exact).isMatch = true ↔
        Comparison.KeptByAuthoring o)) ∧
    ∀ (d d' : Disk) (t : Summary),
      a.run (Emitter.ofFunction name answer) ((), d) = (.ok t, ((), d')) →
      ∀ path ∈ t.written, ∃ p j o, d'.locate path = .ok p ∧ Holds a answer d' p j o ∧
        (']' ∉ j.request.file → '\n' ∉ j.request.file →
          ∀ (suite : Suite) (index : Option SourceIndex) (found : List Found),
            suite.mode = .exact → suite.update = false → suite.scope d' = .ok (index, found) →
            ∃ (report : Report) (v : Found → Suite.Verdict),
              (suite.run (Emitter.ofFunction name answer) ((), d')).1 = .ok report ∧
              report.cases.Perm (found.map fun f => (v f).toCase f) ∧
              ∀ f ∈ found, d'.locate f.path = .ok p → ∀ baseline r,
                Suite.Sent d' index f baseline r → answer r = .ok o →
                  ((v f).status = .pass ↔ Comparison.KeptByAuthoring o)) := by
  constructor
  · intro file o hne hb hl
    rw [Comparison.isMatch_exact]
    exact Comparison.normalize_authored ⟨hne, hb, hl⟩ o
  · intro d d' t hrun path hpath
    obtain ⟨p, j, o, hp, hh⟩ := allHeld_run hrun path hpath
    refine ⟨p, j, o, hp, hh, fun hb hl suite index found hm hu hs => ?_⟩
    obtain ⟨test, source, hj⟩ := hh.job
    have he : ∀ r t, ((Emitter.ofFunction name answer).emit r t).2.2 = t.2 := fun _ _ => rfl
    have hrun' := Suite.run_of_scope (e := Emitter.ofFunction name answer) (s := ((), d')) hs
    have hcases := Suite.runAll_of_disk index hu he found d'
    refine ⟨_, fun f => (suite.verdict (Emitter.ofFunction name answer) index f.path ((), d')).1,
      by rw [hrun'], ?_, ?_⟩
    · rw [← hcases]
      exact Suite.cases_perm _ _
    · intro f hf hfp baseline r hsent hr
      exact verdict_pass_iff hm (Suite.ofPath_of_scope hs hf) hfp hh ⟨file_ne_nil hj, hb, hl⟩ hsent hr

/-! ## 3. An authoring of one source -/

-- A disk with one source and a folder for baselines.
def soleSources : Disk where
  nodes :=
    [(["o".toList], .folder), (["s".toList], .folder),
      (["s".toList, "t.ts".toList], .file (Encoding.utf8Encode "x".toList))]
  distinct := by decide
  named := by decide

def soleAuthoring : Authoring := { sources := "/s", out := "/o", stages := [.normal] }

def soleIndex : SourceIndex := [("t", "/s/t.ts")]

-- An emitter that always gives one text.
def soleEmitter (o : Text) : Emitter Unit := Emitter.ofFunction [] fun _ => .ok o

def soleCheck : Suite := { root := "/o", sources := some "/s".toList }

def soleBaseline : Found where
  path := "/o/t(target=es5).1.normal.js"
  relative := "t(target=es5).1.normal.js"
  name :=
    { test := "t", options := [("target", "es5")], variant := some 1, stage := some .normal
      extension := "js" }

theorem soleAuthoring_run (o : Text) : soleAuthoring.run (soleEmitter o) ((), soleSources) =
    soleAuthoring.runSources (soleEmitter o) soleIndex {} ((), soleSources) := by
  have hb : SourceIndex.build soleSources soleAuthoring.sources = .ok soleIndex := by
    rw [SourceIndex.build_of_sorted (r := ["s".toList])]
    · decide +kernel
    · decide +kernel
    · decide +kernel
  have hm : soleSources.makeFolders soleAuthoring.out = .ok soleSources := by
    decide +kernel
  exact run_of_index hb hm

def soleAuthored (o : Text) : Disk :=
  (soleAuthoring.runSources (soleEmitter o) soleIndex {} ((), soleSources)).2.2

-- What was done.
def soleSummary : Summary := { written := [soleBaseline.path] }

theorem soleAuthored_scope {o : Text} (ho : o = "x\n".toList ∨ o = "x ".toList) :
    soleCheck.scope (soleAuthored o) = .ok (some soleIndex, [soleBaseline]) := by
  have hi : SourceIndex.build (soleAuthored o) "/s" = .ok soleIndex := by
    rcases ho with rfl | rfl
    · rw [SourceIndex.build_of_sorted (r := ["s".toList])] <;> decide +kernel
    · rw [SourceIndex.build_of_sorted (r := ["s".toList])] <;> decide +kernel
  have hb : Discovery.baselines (soleAuthored o) soleCheck.root soleCheck.selection =
      .ok [soleBaseline] := by
    rcases ho with rfl | rfl
    · apply Discovery.baselines_of_sorted (r := ["o".toList]) <;> decide +kernel
    · apply Discovery.baselines_of_sorted (r := ["o".toList]) <;> decide +kernel
  have hindex : soleCheck.index (soleAuthored o) = .ok (some soleIndex) := by
    show (SourceIndex.build (soleAuthored o) "/s").map some = _
    rw [hi]
    rfl
  unfold Suite.scope
  rw [hindex, hb]
  rfl

theorem soleAuthoring_run_eq {o : Text} (ho : o = "x\n".toList ∨ o = "x ".toList) :
    soleAuthoring.run (soleEmitter o) ((), soleSources) =
      (.ok soleSummary, ((), soleAuthored o)) := by
  have ht : (soleAuthoring.runSources (soleEmitter o) soleIndex {} ((), soleSources)).1 =
      .ok soleSummary := by
    rcases ho with rfl | rfl
    · decide +kernel
    · decide +kernel
  rw [soleAuthoring_run, ← ht]
  rfl

-- What an authoring writes for an output tells the source it was authored for.
theorem file_of_authoredBytes {file : Text}
    (h : authoredBytes file "x\n" = Encoding.utf8Encode "//// [t.ts]\nx\n") : file = "t.ts" := by
  have hcode : trimEnd "x\n".toList = "x".toList := by decide
  have hrender : (single file (trimEnd "x\n")).render = "//// [" ++ (file ++ "]\nx\n") := by
    rw [hcode]
    simp [render, single, Section.pieces, markerLine, opening, join]
  have htext : "//// [".toList ++ (file ++ "]\nx\n".toList) =
      "//// [".toList ++ ("t.ts".toList ++ "]\nx\n".toList) :=
    hrender.symm.trans (Encoding.utf8Encode_injective h)
  exact List.append_cancel_right (List.append_cancel_left htext)

theorem keptByAuthoring_sole : Comparison.KeptByAuthoring "x\n" where
  returns := by decide +kernel
  markers := Or.inr (by decide +kernel)
  blanks := by
    intro l hl
    have hlast : Comparison.lastLine? (dropMark "x\n") = some "x".toList := by decide +kernel
    obtain rfl := Option.some.inj (hlast.symm.trans hl)
    refine Or.inr fun c hc => ?_
    obtain rfl : 'x' = c := Option.some.inj hc
    decide

/-- An output that an authoring keeps: the baseline that was authored with it passes. -/
theorem check_after_authoring_sole :
    soleAuthoring.run (soleEmitter "x\n") ((), soleSources) =
        (.ok soleSummary, ((), soleAuthored "x\n")) ∧
      soleCheck.scope (soleAuthored "x\n") = .ok (some soleIndex, [soleBaseline]) ∧
      ∃ p j o, (soleAuthored "x\n").locate soleBaseline.path = .ok p ∧
        Holds soleAuthoring (fun _ => .ok "x\n".toList) (soleAuthored "x\n") p j o ∧
        j.request.file = "t.ts" ∧ o = "x\n" ∧
        (∃ baseline r,
          Suite.Sent (soleAuthored "x\n") (some soleIndex) soleBaseline baseline r) ∧
        ∃ (report : Report) (v : Found → Suite.Verdict),
          (soleCheck.run (soleEmitter "x\n") ((), soleAuthored "x\n")).1 = .ok report ∧
          report.cases.Perm [(v soleBaseline).toCase soleBaseline] ∧
          (v soleBaseline).status = .pass := by
  have hrun := soleAuthoring_run_eq (o := "x\n") (Or.inl rfl)
  have hs := soleAuthored_scope (o := "x\n") (Or.inl rfl)
  obtain ⟨p, j, o, hp, hh, hcheck⟩ := (check_after_authoring soleAuthoring [] _).2 _ _ _ hrun
    soleBaseline.path List.mem_cons_self
  obtain rfl : "x\n".toList = o := Except.ok.inj hh.answered
  have hplace : (soleAuthored "x\n").locate soleBaseline.path =
      .ok ["o".toList, "t(target=es5).1.normal.js".toList] := by decide +kernel
  obtain rfl := Except.ok.inj (hplace.symm.trans hp)
  have hbytes : (soleAuthored "x\n").node? ["o".toList, "t(target=es5).1.normal.js".toList] =
      some (.file (Encoding.utf8Encode "//// [t.ts]\nx\n")) := by decide +kernel
  have hfile : j.request.file = "t.ts" :=
    file_of_authoredBytes (Node.file.inj (Option.some.inj (hh.bytes.symm.trans hbytes)))
  have htext : (soleAuthored "x\n").readText soleBaseline.path = .ok "//// [t.ts]\nx\n".toList := by
    decide +kernel
  have hpath : Fixture.sourcePath? (soleAuthored "x\n") (some soleIndex) soleBaseline.path
      soleBaseline.name = some "/s/t.ts".toList := by decide +kernel
  have hsource : (soleAuthored "x\n").readText "/s/t.ts" = .ok "x".toList := by decide +kernel
  have htarget : soleBaseline.name.target = .ok (some .es5) := by decide +kernel
  have hsent := Suite.Sent.intro htext hpath hsource htarget
  obtain ⟨report, v, hr, hperm, hv⟩ :=
    hcheck (by rw [hfile]; decide) (by rw [hfile]; decide) soleCheck _ _ rfl rfl hs
  exact ⟨hrun, hs, _, j, _, hplace, hh, hfile, rfl, ⟨_, _, hsent⟩, report, v, hr, hperm,
    (hv soleBaseline List.mem_cons_self hplace _ _ hsent rfl).2 keptByAuthoring_sole⟩

/-- A blank at the end of the output is lost by an authoring, and then it is missed. -/
theorem check_after_authoring_blank : ∃ report : Report,
    soleAuthoring.run (soleEmitter "x ") ((), soleSources) =
        (.ok soleSummary, ((), soleAuthored "x ")) ∧
      (soleCheck.run (soleEmitter "x ") ((), soleAuthored "x ")).1 = .ok report ∧
      report.cases.map (·.status) = [.mismatch] := by
  have hrun := soleAuthoring_run_eq (o := "x ") (Or.inr rfl)
  have hs := soleAuthored_scope (o := "x ") (Or.inr rfl)
  have hcheck := Suite.run_of_scope (e := soleEmitter "x ") (s := ((), soleAuthored "x ")) hs
  refine ⟨_, hrun, by rw [hcheck], ?_⟩
  rw [← List.perm_singleton]
  apply ((Suite.cases_perm _ _).map _).trans
  rw [List.perm_singleton]
  decide +kernel

end Baselines.Authoring
