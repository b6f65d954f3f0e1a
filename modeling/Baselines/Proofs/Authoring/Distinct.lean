import Baselines.Proofs.Authoring.Visible

/-!
# Baselines of one source

The jobs of one source with one name ask for the same code, so no two configurations that ask for
different code have one name. Their files are different too, as far as the names are names of files:
with slashes in them they are paths, and two paths can lead to one place.
-/

namespace Baselines

open Text

/-! ## 1. Names that are the same -/

namespace Name

-- What stands behind the stem tells the stage.
theorem eq_of_ending {a b : Text} {s t : Stage} (h : a ++ ending s = b ++ ending t) :
    a = b ∧ s = t := by
  have hlast := congrArg (splitLast? '.') h
  rw [splitLast?_ending, splitLast?_ending, Option.some.injEq, Prod.mk.injEq] at hlast
  have hlabel := congrArg (splitLast? '.') hlast.1
  rw [splitLast?_append _ (not_mem_label s), splitLast?_append _ (not_mem_label t),
    Option.some.injEq, Prod.mk.injEq] at hlabel
  have hstage := congrArg stage? hlabel.2
  rw [stage?_label, stage?_label, Option.some.injEq] at hstage
  rw [hstage] at h
  exact ⟨List.append_cancel_right h, hstage⟩

/-- Options that can be told apart where they are written are known by what is written. -/
theorem eq_of_written {os ps : List (Text × Text)} (hos : ∀ o ∈ os, Legible o)
    (hps : ∀ o ∈ ps, Legible o) (ho : os ≠ []) (hp : ps ≠ [])
    (h : join [','] (os.map writeOption) = join [','] (ps.map writeOption)) : os = ps := by
  have hsplit := congrArg (splitOn ',') h
  rw [splitOn_written ho hos, splitOn_written hp hps] at hsplit
  have hread := congrArg (readOptions []) hsplit
  rw [readOptions_written hos, readOptions_written hps] at hread
  exact Except.ok.inj hread

end Name

namespace Authoring

open Directives

variable {a : Authoring} {disk : Disk} {path : Path} {source : Source} {test : Text} {j k : Job}

/-- Jobs of one source with one name ask for the same code: the name tells the target, the stage and
every option that was declared with several values, and the source tells the others. -/
theorem request_eq_of_render (hs : loadSource disk path = .ok source) (hj : j ∈ a.jobs test source)
    (hk : k ∈ a.jobs test source) (h : j.name.render = k.name.render) : j.request = k.request := by
  obtain ⟨config, hconfig, stage, -, rfl⟩ := mem_jobs.1 hj
  obtain ⟨config', hconfig', stage', -, rfl⟩ := mem_jobs.1 hk
  have hd : WellKeyed source.directives := by
    rw [directives_eq_parse (loadSource_ok hs)]
    exact wellKeyed_parse source.text
  have hc := chosen_of_mem_configurations hd hconfig
  have hc' := chosen_of_mem_configurations hd hconfig'
  simp only [job, Name.render_authored] at h
  obtain ⟨hstem, rfl⟩ := Name.eq_of_ending h
  have hoptions : nameOptions source.directives config = nameOptions source.directives config' := by
    rw [Name.stem_of_ne_nil (List.cons_ne_nil _ _),
      Name.stem_of_ne_nil (List.cons_ne_nil _ _)] at hstem
    have hinner := List.append_cancel_right (List.cons.inj (List.append_cancel_left hstem)).2
    exact Name.eq_of_written (legible_nameOptions hd hc) (legible_nameOptions hd hc')
      (List.cons_ne_nil _ _) (List.cons_ne_nil _ _) hinner
  have htarget : targetOf config = targetOf config' := by
    have hlabel := congrArg Target.parse? (Prod.mk.inj (List.cons.inj hoptions).1).2
    rwa [parse?_label, parse?_label, Option.some.injEq] at hlabel
  have hcompiled : Request.optionsOf config = Request.optionsOf config' := by
    rw [← optionsOf_settled_nameOptions hd hc, hoptions, optionsOf_settled_nameOptions hd hc']
  simp only [job, htarget, hcompiled]

/-! ## 2. Files of jobs -/

-- The file of a job stands where the steps of its name lead to from the folder for the baselines.
theorem locate_job_resolve (hj : j ∈ a.jobs test source) (ht : '/' ∉ test) {d : Disk} {p : Place}
    (hp : d.locate j.path = .ok p) : ∃ r,
      d.walk (d.origin a.out) (Path.leadingSteps a.out) = .ok r ∧
        p = r.resolve (splitOn '/' j.name.render) := by
  rw [path_job hj] at hp
  obtain ⟨r, hr, hw⟩ := Disk.locate_append_walk (not_isAbsolute_render hj ht) hp
  exact ⟨r, hr, Disk.walk_resolve hw⟩

theorem resolve_render_of_not_mem (hj : j ∈ a.jobs test source) (ht : '/' ∉ test)
    (h : '/' ∉ j.name.render) (r : Place) :
    r.resolve (splitOn '/' j.name.render) = r ++ [j.name.render] := by
  obtain ⟨first, rest, hs, hf⟩ := exists_first hj ht
  rw [splitOn_of_not_mem h] at hs ⊢
  obtain ⟨rfl, -⟩ := List.cons.inj hs
  obtain ⟨hidle, hback, -⟩ := Path.isName_iff.1 hf
  simp [Place.resolve, hidle, hback]

-- Without slashes in the names baselines at one place have one name.
theorem render_of_same_place {test' : Text} {source' : Source} (hj : j ∈ a.jobs test source)
    (hk : k ∈ a.jobs test' source') (ht : '/' ∉ test) (ht' : '/' ∉ test')
    (hjn : '/' ∉ j.name.render) (hkn : '/' ∉ k.name.render) {d : Disk} {p : Place}
    (hp : d.locate j.path = .ok p) (hq : d.locate k.path = .ok p) :
    j.name.render = k.name.render := by
  obtain ⟨r, hr, hpr⟩ := locate_job_resolve hj ht hp
  obtain ⟨r', hr', hqr⟩ := locate_job_resolve hk ht' hq
  obtain rfl := Except.ok.inj (hr.symm.trans hr')
  rw [resolve_render_of_not_mem hj ht hjn] at hpr
  rw [resolve_render_of_not_mem hk ht' hkn, hpr] at hqr
  exact (List.cons.inj (List.append_cancel_left hqr)).1

/-- Jobs of one source ask for the same code when they have one name, or one path. Their files stand
where the steps of their names lead to from the folder for the baselines: without slashes in the
names they are the same file only for jobs that ask for the same code. -/
theorem request_of_same_name (hs : loadSource disk path = .ok source) (hj : j ∈ a.jobs test source)
    (hk : k ∈ a.jobs test source) :
    (j.name.render = k.name.render → j.request = k.request) ∧
      ('/' ∉ test → (j.path = k.path → j.request = k.request) ∧
        ∀ (d : Disk) (p q : Place), d.locate j.path = .ok p → d.locate k.path = .ok q →
          (∃ r, d.walk (d.origin a.out) (Path.leadingSteps a.out) = .ok r ∧
            p = r.resolve (splitOn '/' j.name.render) ∧
            q = r.resolve (splitOn '/' k.name.render)) ∧
          ('/' ∉ j.name.render → '/' ∉ k.name.render → p = q → j.request = k.request)) := by
  have hname : j.name.render = k.name.render → j.request = k.request :=
    request_eq_of_render hs hj hk
  refine ⟨hname, fun ht => ⟨fun hpath => ?_, fun d p q hp hq => ?_⟩⟩
  · rw [path_job hj, path_job hk] at hpath
    exact hname (Path.append_inj (not_isAbsolute_render hj ht) (not_isAbsolute_render hk ht) hpath)
  · obtain ⟨r, hr, hpr⟩ := locate_job_resolve hj ht hp
    obtain ⟨r', hr', hqr⟩ := locate_job_resolve hk ht hq
    obtain rfl := Except.ok.inj (hr.symm.trans hr')
    refine ⟨⟨r, hr, hpr, hqr⟩, fun hjn hkn hpq => hname ?_⟩
    exact render_of_same_place hj hk ht ht hjn hkn hp (hpq ▸ hq)

/-! ## 3. Configurations of one name, and of one file -/

-- The baseline of a configuration whose target is written in another way.
def twinJob : Job :=
  variedAuthoring.job "t" variedSource
    [("outdir", "x"), ("strict", "false"), ("target", "es6")] .minified

theorem request_of_same_name_varied :
    loadSource variedDisk "/t.ts" = .ok variedSource ∧
      variedJob ∈ variedAuthoring.jobs "t" variedSource ∧
      twinJob ∈ variedAuthoring.jobs "t" variedSource ∧
      variedJob.name.render = twinJob.name.render ∧ variedJob.request = twinJob.request := by
  have hsource : loadSource variedDisk "/t.ts" = .ok variedSource := by decide +kernel
  have hjob : variedJob ∈ variedAuthoring.jobs "t" variedSource := by decide +kernel
  have htwin : twinJob ∈ variedAuthoring.jobs "t" variedSource := by decide +kernel
  have hname : variedJob.name.render = twinJob.name.render := by decide +kernel
  exact ⟨hsource, hjob, htwin, hname, (request_of_same_name hsource hjob htwin).1 hname⟩

-- Two values of an option that are one path below a folder, and the folder that their names begin
-- with.
def aliasedSources : Disk where
  nodes :=
    [(["o".toList], .folder), (["o".toList, "t(target=es5,paths=x".toList], .folder),
      (["s".toList], .folder),
      (["s".toList, "t.ts".toList], .file (Encoding.utf8Encode "// @paths: x/b, x/./b\n".toList))]
  distinct := by decide
  named := by decide

def aliasedSource : Source where
  path := "/s/t.ts"
  text := "// @paths: x/b, x/./b\n"
  directives := Directives.parse "// @paths: x/b, x/./b\n"

-- Gives the options of a request.
def optionEmitter : Emitter Unit := Emitter.ofFunction [] fun r => .ok r.optionLine

def aliasedJob (value : Text) : Job :=
  soleAuthoring.job "t" aliasedSource [("paths", value)] .normal

def aliasedAuthored : Disk :=
  (soleAuthoring.runSources optionEmitter soleIndex {} ((), aliasedSources)).2.2

/-- Two configurations that ask for different code are both written, and to one file, so that only
the later one is left. -/
theorem request_of_same_name_slashed :
    loadSource aliasedSources "/s/t.ts" = .ok aliasedSource ∧
      soleAuthoring.jobs "t" aliasedSource = [aliasedJob "x/b", aliasedJob "x/./b"] ∧
      (aliasedJob "x/b").request ≠ (aliasedJob "x/./b").request ∧
      soleAuthoring.run optionEmitter ((), aliasedSources) =
        (.ok { written := [(aliasedJob "x/b").path, (aliasedJob "x/./b").path] },
          ((), aliasedAuthored)) ∧
      aliasedAuthored.locate (aliasedJob "x/b").path =
        aliasedAuthored.locate (aliasedJob "x/./b").path ∧
      aliasedAuthored.read (aliasedJob "x/b").path =
        .ok (authoredBytes "t.ts" "paths=x/./b") := by
  have hb : SourceIndex.build aliasedSources soleAuthoring.sources = .ok soleIndex := by
    rw [SourceIndex.build_of_sorted (r := ["s".toList])] <;> decide +kernel
  have hm : aliasedSources.makeFolders soleAuthoring.out = .ok aliasedSources := by
    decide +kernel
  have ht : (soleAuthoring.runSources optionEmitter soleIndex {} ((), aliasedSources)).1 =
      .ok { written := [(aliasedJob "x/b").path, (aliasedJob "x/./b").path] } := by
    decide +kernel
  refine ⟨by decide +kernel, by decide +kernel, by decide +kernel, ?_, by decide +kernel,
    by decide +kernel⟩
  rw [run_of_index (s := ((), aliasedSources)) hb hm, ← ht]
  rfl

end Authoring

end Baselines
