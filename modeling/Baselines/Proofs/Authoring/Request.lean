import Baselines.Authoring
import Baselines.Proofs.Directives
import Baselines.Proofs.Name.Render

/-!
# The request behind a name

The name of an authored baseline and its source give the request again that the baseline was
authored with. The options that the directives settle are not in the name, and the others are, so
each option of a configuration is found in one of the two.
-/

namespace Baselines

open Text

variable {d : Directives} {config : Table Text}

/-! ## 1. Options -/

namespace Directives

theorem isKey_target : IsKey "target".toList :=
  ⟨by decide, List.all_eq_true.1 (by decide +kernel), by decide +kernel, by decide⟩

theorem WellKeyed.mem_settled (h : WellKeyed d) {key value : Text} :
    (key, value) ∈ d.settled ↔ ∃ raw, (key, raw) ∈ d.options ∧ listed raw = [value] := by
  unfold settled
  rw [List.mem_filterMap]
  constructor
  · rintro ⟨k, hk, he⟩
    obtain ⟨raw, hr⟩ := Table.mem_keys.1 hk
    rw [h.values_eq hr] at he
    split at he
    · rename_i v hl
      simp only [Option.some.injEq, Prod.mk.injEq] at he
      obtain ⟨rfl, rfl⟩ := he
      exact ⟨raw, hr, hl⟩
    · exact absurd he (by simp)
  · rintro ⟨raw, hr, hl⟩
    refine ⟨key, Table.mem_keys.2 ⟨raw, hr⟩, ?_⟩
    rw [h.values_eq hr, hl]

theorem WellKeyed.mem_varying (h : WellKeyed d) {key : Text} : key ∈ Authoring.varying d ↔
    key ≠ "target".toList ∧ ∃ raw, (key, raw) ∈ d.options ∧ 1 < (listed raw).length := by
  simp only [Authoring.varying, List.mem_filter, decide_eq_true_eq]
  constructor
  · rintro ⟨hk, hne, hl⟩
    obtain ⟨raw, hr⟩ := Table.mem_keys.1 hk
    rw [h.values_eq hr] at hl
    exact ⟨hne, raw, hr, hl⟩
  · rintro ⟨hne, raw, hr, hl⟩
    refine ⟨Table.mem_keys.2 ⟨raw, hr⟩, hne, ?_⟩
    rwa [h.values_eq hr]

end Directives

namespace Authoring

open Directives

theorem mem_nameOptions (hc : Chosen d.options config) {key value : Text} :
    (key, value) ∈ nameOptions d config ↔
      (key = "target".toList ∧ value = (targetOf config).label) ∨
        (key ∈ varying d ∧ (key, value) ∈ config) := by
  rw [nameOptions, List.mem_cons, List.mem_filterMap, Prod.mk.injEq]
  refine or_congr_right ⟨?_, ?_⟩
  · rintro ⟨k, hk, he⟩
    obtain ⟨v, hv, he⟩ := Option.map_eq_some_iff.1 he
    obtain ⟨rfl, rfl⟩ := Prod.mk.inj he
    exact ⟨hk, Table.mem_of_get? hv⟩
  · rintro ⟨hk, hm⟩
    refine ⟨key, hk, ?_⟩
    rw [hc.sorted.get?_eq_some_iff.2 hm]
    rfl

-- An option of a configuration is settled by the directives or told by the name.
theorem mem_config_iff (hd : WellKeyed d) (hc : Chosen d.options config) {key value : Text}
    (hk : key ≠ "target".toList) : (key, value) ∈ config ↔
      (key, value) ∈ d.settled ++ nameOptions d config := by
  rw [List.mem_append, hd.mem_settled, mem_nameOptions hc, hd.mem_varying]
  constructor
  · intro hm
    obtain ⟨raw, hr, hv⟩ := hc.declared key value hm
    by_cases hl : 1 < (listed raw).length
    · exact Or.inr (Or.inr ⟨⟨hk, raw, hr, hl⟩, hm⟩)
    · obtain ⟨v, he⟩ : ∃ v, listed raw = [v] := by
        rw [← List.length_eq_one_iff]
        have := List.length_pos_of_mem hv
        omega
      rw [he, List.mem_singleton] at hv
      exact Or.inl ⟨raw, hr, by rw [he, hv]⟩
  · rintro (⟨raw, hr, hl⟩ | ⟨he, -⟩ | ⟨-, hm⟩)
    · obtain ⟨v, hm⟩ := hc.taken key raw hr (by rw [hl]; exact List.cons_ne_nil _ _)
      obtain ⟨raw', hr', hv⟩ := hc.declared key v hm
      rw [hd.sorted.unique hr' hr, hl, List.mem_singleton] at hv
      rwa [← hv]
    · exact absurd he hk
    · exact hm

theorem optionsOf_eq {ps : List (Text × Text)} (h : ∀ p ∈ ps, lowerAscii p.1 = p.1) :
    Request.optionsOf ps =
      Table.ofPairs (ps.filter fun p => !Request.otherKeys.contains p.1) := by
  have hid : ∀ p ∈ ps, (lowerAscii p.1, p.2) = id p := fun p hp => by rw [h p hp]; rfl
  rw [Request.optionsOf, List.map_congr_left hid, List.map_id]

-- Directives and name together give the options of the configuration.
theorem optionsOf_settled_nameOptions (hd : WellKeyed d) (hc : Chosen d.options config) :
    Request.optionsOf (d.settled ++ nameOptions d config) = Request.optionsOf config := by
  have hconfig : ∀ p ∈ config, lowerAscii p.1 = p.1 := by
    rintro ⟨key, value⟩ hm
    obtain ⟨raw, hr, -⟩ := hc.declared key value hm
    exact (hd.isKey _ hr).lowerAscii
  have hnamed : ∀ p ∈ d.settled ++ nameOptions d config, lowerAscii p.1 = p.1 := by
    rintro ⟨key, value⟩ hm
    by_cases hk : key = "target".toList
    · rw [hk]
      exact isKey_target.lowerAscii
    · exact hconfig _ ((mem_config_iff hd hc hk).2 hm)
  rw [optionsOf_eq hconfig, optionsOf_eq hnamed]
  symm
  apply Table.ofPairs_congr
  · intro key v w hv hw
    exact hc.sorted.unique (List.mem_of_mem_filter hv) (List.mem_of_mem_filter hw)
  · rintro ⟨key, value⟩
    rw [List.mem_filter, List.mem_filter]
    refine and_congr_left fun hother => mem_config_iff hd hc fun hk => ?_
    have hin : Request.otherKeys.contains "target".toList = true := by decide
    rw [hk, hin] at hother
    exact Bool.noConfusion hother

/-! ## 2. Names -/

theorem legible_nameOptions (hd : WellKeyed d) (hc : Chosen d.options config) :
    ∀ o ∈ nameOptions d config, Name.Legible o := by
  rintro ⟨key, value⟩ hm
  rcases (mem_nameOptions hc).1 hm with ⟨rfl, rfl⟩ | ⟨-, hm⟩
  · have hlabel : ∀ t : Target, trim t.label = t.label ∧ ',' ∉ t.label := by
      intro t
      cases t <;> decide +kernel
    exact ⟨isKey_target.trim_eq, (hlabel _).1, isKey_target.not_mem (by decide),
      isKey_target.not_mem (by decide), (hlabel _).2⟩
  · obtain ⟨raw, hr, hv⟩ := hc.declared key value hm
    obtain ⟨-, htrim, hcomma⟩ := mem_listed hv
    have hkey := hd.isKey _ hr
    exact ⟨hkey.trim_eq, htrim, hkey.not_mem (by decide), hkey.not_mem (by decide), hcomma⟩

theorem variant?_ofNat (stage : Stage) :
    Name.variant? (Text.ofNat stage.variant) = some stage.variant := by
  cases stage <;> decide +kernel

-- The name of an authored baseline is read as it was written, if it is read at all.
theorem eq_authored (hd : WellKeyed d) (hc : Chosen d.options config) {test : Text} {stage : Stage}
    {n : Name} (h : Name.parse (Name.authored test (nameOptions d config) stage).render = .ok n) :
    n = Name.authored test (nameOptions d config) stage := by
  have hextension : "js".toList ∈ Name.extensions := by decide
  exact Name.eq_of_parse_render rfl rfl (variant?_ofNat stage) hextension (List.cons_ne_nil _ _)
    (legible_nameOptions hd hc) h

theorem parse?_label (t : Target) : Target.parse? t.label = some t := by
  cases t <;> decide +kernel

theorem target_authored (test : Text) (stage : Stage) :
    (Name.authored test (nameOptions d config) stage).target = .ok (some (targetOf config)) := by
  have ho : (Name.authored test (nameOptions d config) stage).option? "target" =
      some (targetOf config).label := by
    have hsame : sameAscii "target".toList "target".toList = true := by decide
    unfold Name.option? Name.authored nameOptions
    rw [List.find?_cons_of_pos (by exact hsame)]
    rfl
  rw [Name.target, ho]
  simp only [parse?_label]

/-! ## 3. Requests -/

theorem mem_jobs {a : Authoring} {test : Text} {source : Source} {j : Job} :
    j ∈ a.jobs test source ↔ ∃ config ∈ source.directives.configurations, ∃ stage ∈ a.stages,
      a.job test source config stage = j := by
  simp only [jobs, List.mem_flatMap, List.mem_map]

theorem loadSource_ok {disk : Disk} {path : Path} {source : Source}
    (h : loadSource disk path = .ok source) : Source.load disk path = .ok source := by
  simp only [loadSource, bind, Except.bind] at h
  split at h
  · exact absurd h (by simp)
  · rename_i loaded hl
    split at h
    · rw [hl, Except.ok.inj h]
    · exact absurd h (by simp)

theorem directives_eq_parse {disk : Disk} {path : Path} {source : Source}
    (h : Source.load disk path = .ok source) :
    source.directives = Directives.parse source.text := by
  rw [Source.load] at h
  cases ht : disk.readText path with
  | error x => simp [ht, Except.map] at h
  | ok text =>
    rw [ht] at h
    rw [← Except.ok.inj h]

-- The request that a fixture with an authored name and its source gives again.
theorem requestFor_authored {a : Authoring} {test : Text} {source again : Source} {stage : Stage}
    (hd : WellKeyed source.directives) (hc : Chosen source.directives.options config)
    (htext : again.text = source.text) (hdirectives : again.directives = source.directives)
    {f : Fixture} (hf : f.name = (a.job test source config stage).name) :
    ∃ file, f.requestFor again =
      .ok { (a.job test source config stage).request with file } := by
  have htarget : f.name.target = .ok (some (targetOf config)) := by
    rw [hf]
    exact target_authored test stage
  have hoptions : Request.optionsOf (source.directives.settled ++ f.name.options) =
      Request.optionsOf config := by
    rw [hf]
    exact optionsOf_settled_nameOptions hd hc
  have hstage : f.name.effectiveStage = stage := by
    rw [hf]
    rfl
  refine ⟨f.file.primary?.getD f.name.sourceName, ?_⟩
  simp only [Fixture.requestFor, htarget, bind, Except.bind, pure, Except.pure, htext, hdirectives,
    hoptions, hstage, job]

/-- Authoring and checking ask for the same code. Where the file name of an authored baseline is
read as a name, it is read as the name that was authored, and a fixture with that name and the
same source asks for what the job asked for, in all but what the source is called. -/
theorem request_of_authored {disk : Disk} {path : Path} {source : Source}
    (hsource : loadSource disk path = .ok source) {a : Authoring} {test : Text} {j : Job}
    (hj : j ∈ a.jobs test source) {n : Name} (hn : Name.parse j.name.render = .ok n) :
    n = j.name ∧
      ∀ (f : Fixture) (later : Disk) (place : Path) (again : Source),
        Source.load later place = .ok again → again.text = source.text →
        f.name = n → f.source = some again →
        ∃ file, f.request = .ok (some { j.request with file }) := by
  obtain ⟨config, hconfig, stage, -, rfl⟩ := mem_jobs.1 hj
  have hdirectives := directives_eq_parse (loadSource_ok hsource)
  have hd : WellKeyed source.directives := by
    rw [hdirectives]
    exact wellKeyed_parse source.text
  have hc := chosen_of_mem_configurations hd hconfig
  have hname : n = (a.job test source config stage).name := eq_authored hd hc hn
  refine ⟨hname, fun f later place again hagain htext hf hs => ?_⟩
  have hsame : again.directives = source.directives := by
    rw [directives_eq_parse hagain, htext, hdirectives]
  have hauthored : f.name = (a.job test source config stage).name := hf.trans hname
  obtain ⟨file, hr⟩ := requestFor_authored hd hc htext hsame hauthored
  exact ⟨file, by simp only [Fixture.request, hs, hr]⟩

/-! ## 4. A source with several configurations -/

-- Two names of one target, an option of two values and one of a single value.
def variedText : Text :=
  "// @Target: es6, ES2015\n// @strict: true, false\n// @outDir: x\nlet a;\n"

def variedDisk : Disk where
  nodes := [(["t.ts".toList], .file (Encoding.utf8Encode variedText))]
  distinct := by decide
  named := by decide

def variedSource : Source where
  path := "/t.ts"
  text := variedText
  directives := Directives.parse variedText

-- Authors its baselines for both stages.
def variedAuthoring : Authoring := { sources := "/", out := "/o", stages := [.normal, .minified] }

-- The baseline of the last configuration, minified.
def variedJob : Job :=
  variedAuthoring.job "t" variedSource
    [("outdir", "x"), ("strict", "false"), ("target", "ES2015")] .minified

-- A fixture with the name of that baseline.
def variedFixture : Fixture where
  name := variedJob.name
  path := variedJob.path
  file := MarkedFile.parse []
  source := some variedSource

theorem request_of_authored_varied :
    loadSource variedDisk "/t.ts" = .ok variedSource ∧
      variedJob ∈ variedAuthoring.jobs "t" variedSource ∧
      variedJob.name.render = "t(target=es2015,strict=false).2.minified.js".toList ∧
      variedJob.request.options = [("outdir".toList, "x".toList), ("strict".toList, "false".toList)] ∧
      ∃ n, Name.parse variedJob.name.render = .ok n ∧ n = variedJob.name ∧
        ∃ file, variedFixture.request = .ok (some { variedJob.request with file }) := by
  have hsource : loadSource variedDisk "/t.ts" = .ok variedSource := by decide +kernel
  have hjob : variedJob ∈ variedAuthoring.jobs "t" variedSource := by decide +kernel
  have hparse : Name.parse variedJob.name.render = .ok variedJob.name := by decide +kernel
  obtain ⟨hn, hrequest⟩ := request_of_authored hsource hjob hparse
  refine ⟨hsource, hjob, by decide +kernel, by decide +kernel, variedJob.name, hparse, hn, ?_⟩
  exact hrequest variedFixture variedDisk "/t.ts" variedSource (loadSource_ok hsource) rfl rfl rfl

end Authoring

end Baselines
