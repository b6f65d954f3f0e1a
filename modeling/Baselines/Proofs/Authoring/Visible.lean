import Baselines.Proofs.Authoring.Written
import Baselines.Proofs.Name.Grammar

/-!
# Authored baselines that are found

The name of an authored baseline is printed from the name of a test and from values of options, as
they are. The baseline is found again, and covered by a suite, when its file name is read as a name,
which depends on the parentheses and slashes in the test and the values.
-/

namespace Baselines

open Text

/-! ## 1. Stems that are read -/

namespace Name

/-- A stem that is read with parentheses at its end: there is a test before them, no other
parenthesis opens in it and none closes between them, and what they hold are options. -/
def Bracketed (stem : Text) : Prop :=
  ∃ test inner, stem = enclosing test inner ∧ test ≠ [] ∧ '(' ∉ test ∧ Plain inner ∧ Keyed inner

theorem bracketed_iff (name : Text) {stem : Text} (h : ')' ∈ stem) :
    (∃ test os, splitStem name stem = .ok (test, os) ∧ test ≠ []) ↔ Bracketed stem := by
  simp only [splitStem_eq_ok]
  constructor
  · rintro ⟨test, os, hbare | ⟨htest, hi, ho⟩, hne⟩
    · exact absurd h hbare.2
    · exact ⟨test, _, rfl, hne, htest, hi, exists_lists.1 ⟨os, ho⟩⟩
  · rintro ⟨test, inner, rfl, hne, htest, hi, hitems⟩
    obtain ⟨os, ho⟩ := exists_lists.2 hitems
    exact ⟨test, os, .listed htest hi ho, hne⟩

/-! ## 2. Names of authored baselines -/

/-- What the name of an authored baseline ends with. -/
def ending (stage : Stage) : Text :=
  '.' :: (Text.ofNat stage.variant ++ '.' :: (stage.label ++ '.' :: "js".toList))

theorem slash_not_mem_ending (stage : Stage) : '/' ∉ ending stage := by
  cases stage <;> decide +kernel

theorem render_authored (test : Text) (options : List (Text × Text)) (stage : Stage) :
    (authored test options stage).render = (authored test options stage).stem ++ ending stage := by
  rw [render_eq (n := authored test options stage) rfl rfl]
  simp [ending, authored]

theorem splitLast?_ending (stem : Text) (stage : Stage) : splitLast? '.' (stem ++ ending stage) =
    some ((stem ++ '.' :: Text.ofNat stage.variant) ++ '.' :: stage.label, "js".toList) := by
  have hextension : '.' ∉ "js".toList := by decide
  have happ : stem ++ ending stage = ((stem ++ '.' :: Text.ofNat stage.variant) ++
      '.' :: stage.label) ++ '.' :: "js".toList := by simp [ending]
  rw [happ, splitLast?_append _ hextension]

theorem parse_ending (stem : Text) (stage : Stage) :
    (∃ n, parse (stem ++ ending stage) = .ok n) ↔
      ∃ test os, splitStem (stem ++ ending stage) stem = .ok (test, os) ∧ test ≠ [] := by
  have hmem : "js".toList ∈ extensions := by decide
  have hlast := splitLast?_ending stem stage
  have hstage := peel_piece (not_mem_label stage) (stage?_label stage)
    (stem ++ '.' :: Text.ofNat stage.variant)
  have hvariant := peel_piece (not_mem_ofNat stage.variant)
    (show variant? (Text.ofNat stage.variant) = some stage.variant by cases stage <;> decide +kernel)
    stem
  constructor
  · rintro ⟨n, h⟩
    obtain ⟨k, staged, varied, ht, -, hs, hv, hstem, hne⟩ := parse_eq_ok.1 h
    rw [hlast, Option.some.injEq, Prod.mk.injEq] at ht
    rw [← ht.1, hstage, Prod.mk.injEq] at hs
    rw [← hs.1, hvariant, Prod.mk.injEq] at hv
    rw [← hv.1] at hstem
    exact ⟨n.test, n.options, hstem, hne⟩
  · rintro ⟨test, os, hstem, hne⟩
    exact ⟨{ test, options := os, variant := some stage.variant, stage := some stage
             extension := "js" },
      parse_eq_ok.2 ⟨_, _, _, hlast, hmem, hstage, hvariant, hstem, hne⟩⟩

/-- No parenthesis of a name can be taken for one of those around its options. -/
structure Unmistakable (n : Name) : Prop where
  test : n.test ≠ []
  opening : '(' ∉ n.test
  values : ∀ o ∈ n.options, '(' ∉ o.2 ∧ ')' ∉ o.2

end Name

namespace Authoring

open Directives

variable {a : Authoring} {source : Source} {test : Text} {j : Job}

/-- What stands in a text behind its last slash. -/
def lastPiece (t : Text) : Text := (splitOn '/' t).getLast (splitOn_ne_nil '/' t)

-- Where nothing else is cut, the last piece goes on.
theorem splitOn_append_plain (t : Text) {v : Text} (hv : '/' ∉ v) :
    splitOn '/' (t ++ v) = (splitOn '/' t).dropLast ++ [lastPiece t ++ v] := by
  have ht : splitOn '/' t = (splitOn '/' t).dropLast ++ [lastPiece t] :=
    (List.dropLast_append_getLast (splitOn_ne_nil '/' t)).symm
  exact splitOn_append_pieces ht (splitOn_of_not_mem hv)

theorem lastPiece_append (t : Text) {v : Text} (hv : '/' ∉ v) :
    lastPiece (t ++ v) = lastPiece t ++ v := by
  have hall := splitOn_append_plain t hv
  unfold lastPiece at hall ⊢
  simp [hall]

theorem lastPiece_of_not_mem {t : Text} (h : '/' ∉ t) : lastPiece t = t := by
  unfold lastPiece
  simp [splitOn_of_not_mem h]

theorem isName_of_mem {c : Char} {step : Text} (hc : c ∈ step) (hd : c ≠ '.') (hs : '/' ∉ step) :
    Path.isName step = true := by
  refine Path.isName_iff.2 ⟨?_, ?_, hs⟩
  · have hne : step ≠ [] := List.ne_nil_of_mem hc
    have hdot : step ≠ ['.'] := by
      rintro rfl
      exact hd (List.mem_singleton.1 hc)
    simp [Path.isIdle, hne, hdot]
  · rintro rfl
    simp [hd] at hc

-- The stem of a name with options, in its parentheses.
theorem exists_stem_job (hj : j ∈ a.jobs test source) :
    ∃ inner, j.name.stem = test ++ '(' :: (inner ++ [')']) := by
  obtain ⟨config, -, stage, -, rfl⟩ := mem_jobs.1 hj
  exact ⟨_, Name.stem_of_ne_nil (List.cons_ne_nil _ _)⟩

theorem render_job (hj : j ∈ a.jobs test source) :
    j.name.render = j.name.stem ++ Name.ending j.request.stage := by
  obtain ⟨config, -, stage, -, rfl⟩ := mem_jobs.1 hj
  exact Name.render_authored _ _ _

theorem path_job (hj : j ∈ a.jobs test source) : j.path = Path.append a.out j.name.render := by
  obtain ⟨config, -, stage, -, rfl⟩ := mem_jobs.1 hj
  rfl

-- The path of a job begins with a name, below the folder.
theorem exists_first (hj : j ∈ a.jobs test source) (ht : '/' ∉ test) :
    ∃ first rest, splitOn '/' j.name.render = first :: rest ∧ Path.isName first = true := by
  obtain ⟨inner, hstem⟩ := exists_stem_job hj
  have hsplit : splitOn '/' (test ++ ['(']) = [] ++ [test ++ ['(']] :=
    splitOn_of_not_mem (by simp [ht])
  have hrender : j.name.render =
      (test ++ ['(']) ++ (inner ++ ')' :: Name.ending j.request.stage) := by
    rw [render_job hj, hstem]
    simp
  obtain ⟨p, ps, hp⟩ := List.exists_cons_of_ne_nil
    (splitOn_ne_nil '/' (inner ++ ')' :: Name.ending j.request.stage))
  have hall := splitOn_append_pieces hsplit hp
  rw [← hrender, List.nil_append] at hall
  have hslash : '/' ∉ (test ++ ['(']) ++ p :=
    not_mem_of_mem_splitOn (by rw [hall]; exact List.mem_cons_self)
  exact ⟨_, ps, hall, isName_of_mem (c := '(') (by simp) (by decide) hslash⟩

theorem not_isAbsolute_render (hj : j ∈ a.jobs test source) (ht : '/' ∉ test) :
    Path.isAbsolute j.name.render = false := by
  obtain ⟨first, rest, hs, hf⟩ := exists_first hj ht
  exact Path.not_isAbsolute_of_first hs hf

-- The path of a job ends with a name, which ends in the last piece of the stem.
theorem exists_last (hj : j ∈ a.jobs test source) : ∃ front,
    splitOn '/' j.name.render = front ++ [lastPiece j.name.stem ++ Name.ending j.request.stage] ∧
      ')' ∈ lastPiece j.name.stem ∧
      Path.isName (lastPiece j.name.stem ++ Name.ending j.request.stage) = true := by
  obtain ⟨inner, hstem⟩ := exists_stem_job hj
  have hclose : ')' ∈ lastPiece j.name.stem := by
    have hsplit : j.name.stem = (test ++ '(' :: inner) ++ [')'] := by
      rw [hstem]
      simp
    have hpiece : '/' ∉ [')'] := by decide
    rw [hsplit, lastPiece_append _ hpiece]
    simp
  have hall := splitOn_append_plain j.name.stem (Name.slash_not_mem_ending j.request.stage)
  rw [← render_job hj] at hall
  have hslash : '/' ∉ lastPiece j.name.stem ++ Name.ending j.request.stage :=
    not_mem_of_mem_splitOn (by rw [hall]; simp)
  have hm : ')' ∈ lastPiece j.name.stem ++ Name.ending j.request.stage :=
    List.mem_append_left _ hclose
  exact ⟨_, hall, hclose, isName_of_mem hm (by decide) hslash⟩

-- The last step of a walk to a baseline is taken to the file.
theorem exists_place_of_walk (hj : j ∈ a.jobs test source) {d : Disk} {r q : Place}
    (hw : d.walk r (splitOn '/' j.name.render) = .ok q) :
    ∃ k, q = k ++ [lastPiece j.name.stem ++ Name.ending j.request.stage] := by
  obtain ⟨front, hlast, -, hend⟩ := exists_last hj
  rw [hlast] at hw
  obtain ⟨k, -, hw⟩ := Disk.walk_append_ok hw
  obtain ⟨m, hm, hw⟩ := Disk.walk_cons_ok hw
  rw [Disk.walk_nil, Except.ok.injEq] at hw
  exact ⟨k, by rw [← hw, Disk.follow_name hend hm]⟩

/-! ## 3. Files that are found -/

-- The file name of a job is read when the last piece of its stem is.
theorem ofPath_job_iff (hj : j ∈ a.jobs test source) (ht : '/' ∉ test) :
    (∃ n, Name.ofPath j.path = .ok n) ↔ Name.Bracketed (lastPiece j.name.stem) := by
  obtain ⟨front, hlast, hclose, hend⟩ := exists_last hj
  have hfile := Path.fileName?_append a.out (not_isAbsolute_render hj ht) hlast hend
  rw [← Name.bracketed_iff _ hclose, ← Name.parse_ending _ j.request.stage, path_job hj]
  unfold Name.ofPath
  rw [hfile]

/-- The stem of a job is read when no parenthesis in it is mistaken. -/
theorem bracketed_stem {entry : Text × Path} (hs : SourceOf entry source)
    (hj : j ∈ a.jobs test source) : Name.Bracketed j.name.stem ↔ Name.Unmistakable j.name := by
  obtain ⟨config, hconfig, stage, -, rfl⟩ := mem_jobs.1 hj
  have hd : WellKeyed source.directives := by
    rw [hs.directives]
    exact wellKeyed_parse source.text
  have hc := chosen_of_mem_configurations hd hconfig
  have hne : nameOptions source.directives config ≠ [] := List.cons_ne_nil _ _
  have hstem := Name.stem_of_ne_nil (n := (a.job test source config stage).name) hne
  have hclose : ')' ∈ (a.job test source config stage).name.stem := by
    rw [hstem]
    simp
  rw [← Name.bracketed_iff [] hclose]
  constructor
  · rintro ⟨t, os, hsplit, ht⟩
    rw [hstem] at hsplit
    obtain ⟨rfl, hopen, hin, hout, -⟩ := Name.splitStem_parentheses.1 hsplit
    have hin := (Name.not_mem_written (by decide)).1 hin
    have hout := (Name.not_mem_written (by decide)).1 hout
    exact ⟨ht, hopen, fun o ho => ⟨(hin o ho).2, (hout o ho).2⟩⟩
  · intro h
    refine ⟨_, _, Name.splitStem_stem.2 ⟨h.opening, fun hn => absurd hn hne, fun o ho => ?_⟩,
      h.test⟩
    -- the keys of directives are words, which have no parentheses
    have hkey : ∀ c ∈ ['(', ')'], c ∉ o.1 := by
      intro c hm
      have hword : isWordChar c = false := by
        rcases List.mem_pair.1 hm with rfl | rfl <;> decide
      obtain ⟨key, value⟩ := o
      rcases (mem_nameOptions hc).1 ho with ⟨rfl, -⟩ | ⟨-, hmem⟩
      · exact isKey_target.not_mem hword
      · obtain ⟨raw, hr, -⟩ := hc.declared key value hmem
        exact (hd.isKey _ hr).not_mem hword
    have hvalue : ∀ c ∈ ['(', ')'], c ∉ o.2 := by
      intro c hm
      rcases List.mem_pair.1 hm with rfl | rfl
      · exact (h.values o ho).1
      · exact (h.values o ho).2
    exact ⟨legible_nameOptions hd hc o ho, hkey, hvalue⟩

/-- A path leads below a folder. -/
def Below (d : Disk) (root path : Path) : Prop :=
  ∃ r p, d.locate root = .ok r ∧ d.locate path = .ok (r ++ p)

-- A file of a job is found when its name is read and it stands below the folder.
theorem lists_job {d : Disk} (hj : j ∈ a.jobs test source) (ht : '/' ∉ test) (hout : a.out ≠ [])
    (hfile : d.hasFile j.path = true) : ∃ found, Discovery.baselines d a.out {} = .ok found ∧
      (Discovery.Lists d a.out found j.path ↔
        (∃ n, Name.ofPath j.path = .ok n) ∧ Below d a.out j.path) ∧
      ('/' ∉ j.name.stem → Below d a.out j.path) := by
  obtain ⟨first, rest, hfirst, hname⟩ := exists_first hj ht
  obtain ⟨front, hlast, -, hend⟩ := exists_last hj
  have habs := not_isAbsolute_render hj ht
  obtain ⟨q, bytes, hq⟩ := Disk.hasFile_iff.1 hfile
  have hlocate := (Disk.find_eq_ok.1 hq).1
  rw [path_job hj] at hlocate
  obtain ⟨r, hr, hfolder, hwalk⟩ := Disk.locate_of_append hout habs hlocate
  obtain ⟨k, rfl⟩ := exists_place_of_walk hj hwalk
  rw [← path_job hj] at hlocate
  obtain ⟨found, hfound, hlists⟩ := Discovery.lists_iff (Disk.find_eq_ok.2 ⟨hr, hfolder⟩) hq
  have hbelow : Below d a.out j.path ↔
      r <+: k ++ [lastPiece j.name.stem ++ Name.ending j.request.stage] := by
    constructor
    · rintro ⟨r', p, hr', hp⟩
      obtain rfl := Except.ok.inj (hr.symm.trans hr')
      exact ⟨p, Except.ok.inj (hp.symm.trans hlocate)⟩
    · rintro ⟨p, hp⟩
      exact ⟨r, p, hr, by rw [hp, hlocate]⟩
  have hread : (∃ n, Name.ofPath j.path = .ok n) ↔
      Discovery.isBaseline (k ++ [lastPiece j.name.stem ++ Name.ending j.request.stage]) := by
    unfold Discovery.isBaseline Name.ofPath
    rw [path_job hj, Path.fileName?_append a.out habs hlast hend, List.getLast?_concat]
    simp
  refine ⟨found, hfound, ?_, fun hslash => ?_⟩
  · rw [hlists, hread, hbelow, and_comm]
  · have hplain : '/' ∉ j.name.render := by
      rw [render_job hj, List.mem_append, not_or]
      exact ⟨hslash, Name.slash_not_mem_ending _⟩
    rw [splitOn_of_not_mem hplain] at hfirst hwalk
    obtain ⟨rfl, -⟩ := List.cons.inj hfirst
    have hnames : [j.name.render].all Path.isName = true := by simp [hname]
    exact ⟨r, [j.name.render], hr, by rw [hlocate, Disk.walk_names hnames hwalk]⟩

/-! ## 4. Runs -/

variable {σ : Type} {e : Emitter σ} {s s' : σ × Disk} {t : Summary} {index : SourceIndex}

/-- The path that was written is that of a job of one of the sources. -/
structure WrittenBy (a : Authoring) (index : SourceIndex) (path : Path) (j : Job) : Prop where
  job : ∃ entry ∈ index, ∃ source, SourceOf entry source ∧ j ∈ a.jobs entry.1 source
  path : j.path = path

theorem writtenBy_runSources (h : a.runSources e index {} s = (.ok t, s')) :
    ∀ path ∈ t.written, ∃ j, WrittenBy a index path j := by
  have hstart : ∀ path ∈ ({} : Summary).written, ∃ j, WrittenBy a index path j :=
    fun path hp => absurd hp List.not_mem_nil
  refine runSources_invariant (P := fun t _ => ∀ path ∈ t.written, ∃ j, WrittenBy a index path j)
    (fun _ _ _ _ _ h => h) ?_ hstart h
  intro entry hentry source hsource j hj t s t' s' ht hr
  have hdoes := does_runJob a e t j s
  rw [hr] at hdoes
  cases hdoes with
  | skipped _ => exact ht
  | failed _ _ => exact ht
  | written _ _ _ =>
    intro path hp
    rcases List.mem_append.1 hp with hp | hp
    · exact ht path hp
    · exact ⟨j, ⟨entry, hentry, source, hsource, hj⟩, (List.mem_singleton.1 hp).symm⟩

-- With an emitter that leaves the disk alone, what was written stays.
theorem hasFile_runSources (he : ∀ r u, (e.emit r u).2.2 = u.2)
    (h : a.runSources e index {} s = (.ok t, s')) :
    ∀ path ∈ t.written, s'.2.hasFile path = true := by
  have hstart : ∀ path ∈ ({} : Summary).written, s.2.hasFile path = true :=
    fun path hp => absurd hp List.not_mem_nil
  refine runSources_invariant (P := fun t s => ∀ path ∈ t.written, s.2.hasFile path = true)
    (fun _ _ _ _ _ h => h) ?_ hstart h
  intro entry _ source _ j _ t s t' s' ht hr
  have hdoes := does_runJob a e t j s
  have hquiet := he j.request s
  rw [hr] at hdoes
  cases hdoes with
  | skipped _ => exact ht
  | failed _ hemit =>
    rw [hemit] at hquiet
    rwa [hquiet]
  | written _ hemit hw =>
    rw [hemit] at hquiet
    obtain rfl : _ = s.2 := hquiet
    intro path hpath
    apply Disk.hasFile_write hw
    rcases List.mem_append.1 hpath with hpath | hpath
    · exact Or.inr (ht path hpath)
    · exact Or.inl (List.mem_singleton.1 hpath)

/-- After an authoring, each file that was written is found below the folder, and covered by a suite
on the folder, exactly when its name is read and it stands there at all. Its name is read exactly when
what stands behind the last slash of its stem has parentheses at its end and no other ones; without
slashes it stands in the folder, and its name is read when no parenthesis of its test or of its values
can be mistaken. -/
theorem found_after_authoring (a : Authoring) (e : Emitter σ)
    (h : a.run e s = (.ok t, s')) : ∃ index, SourceIndex.build s.2 a.sources = .ok index ∧
      ((∀ r u, (e.emit r u).2.2 = u.2) → ∀ path ∈ t.written, s'.2.hasFile path = true) ∧
      ∀ path ∈ t.written, ∃ j, WrittenBy a index path j ∧
        ((∃ n, Name.ofPath path = .ok n) ↔ Name.Bracketed (lastPiece j.name.stem)) ∧
        ('/' ∉ j.name.stem →
          ((∃ n, Name.ofPath path = .ok n) ↔ Name.Unmistakable j.name)) ∧
        (a.out ≠ [] → s'.2.hasFile path = true →
          ∃ found, Discovery.baselines s'.2 a.out {} = .ok found ∧
            (Discovery.Lists s'.2 a.out found path ↔
              (∃ n, Name.ofPath path = .ok n) ∧ Below s'.2 a.out path) ∧
            ('/' ∉ j.name.stem → Below s'.2 a.out path) ∧
            ∀ (suite : Suite) (sources : Option SourceIndex), suite.root = a.out →
              suite.selection = {} → suite.index s'.2 = .ok sources →
              ∀ {τ : Type} (check : Emitter τ) (memory : τ),
                suite.Covers check (memory, s'.2) found) := by
  obtain ⟨index, d, hindex, -, hrun⟩ := run_ok h
  refine ⟨index, hindex, fun he => hasFile_runSources he hrun, fun path hpath => ?_⟩
  obtain ⟨j, hj⟩ := writtenBy_runSources hrun path hpath
  refine ⟨j, hj, ?_⟩
  obtain ⟨⟨entry, hentry, source, hsource, hjob⟩, rfl⟩ := hj
  have htest := SourceIndex.slash_not_mem hindex hentry
  have hread := ofPath_job_iff hjob htest
  refine ⟨hread, fun hslash => ?_, fun hout hfile => ?_⟩
  · rw [hread, lastPiece_of_not_mem hslash, bracketed_stem hsource hjob]
  · obtain ⟨found, hfound, hlists, hbelow⟩ := lists_job hjob htest hout hfile
    refine ⟨found, hfound, hlists, hbelow, fun suite sources hroot hall hsources τ check memory => ?_⟩
    have hscope : suite.scope s'.2 = .ok (sources, found) := by
      unfold Suite.scope
      rw [hroot, hall, hsources]
      simp only [bind, Except.bind, hfound]
      rfl
    exact Suite.covers_of_scope hscope

/-! ## 5. Two sources -/

-- One of the tests has parentheses in its name.
def mixedSources : Disk where
  nodes :=
    [(["o".toList], .folder), (["s".toList], .folder),
      (["s".toList, "a(1).ts".toList], .file (Encoding.utf8Encode "x".toList)),
      (["s".toList, "t.ts".toList], .file (Encoding.utf8Encode "x".toList))]
  distinct := by decide
  named := by decide

def mixedIndex : SourceIndex := [("a(1)", "/s/a(1).ts"), ("t", "/s/t.ts")]

def mistakenPath : Path := "/o/a(1)(target=es5).1.normal.js"

def mixedSummary : Summary := { written := [mistakenPath, soleBaseline.path] }

def mixedAuthored : Disk :=
  (soleAuthoring.runSources (soleEmitter "x") mixedIndex {} ((), mixedSources)).2.2

theorem mixed_run : soleAuthoring.run (soleEmitter "x") ((), mixedSources) =
    (.ok mixedSummary, ((), mixedAuthored)) := by
  have hb : SourceIndex.build mixedSources soleAuthoring.sources = .ok mixedIndex := by
    rw [SourceIndex.build_of_sorted (r := ["s".toList])] <;> decide +kernel
  have hm : mixedSources.makeFolders soleAuthoring.out = .ok mixedSources := by
    decide +kernel
  have ht : (soleAuthoring.runSources (soleEmitter "x") mixedIndex {} ((), mixedSources)).1 =
      .ok mixedSummary := by
    decide +kernel
  rw [run_of_index (s := ((), mixedSources)) hb hm, ← ht]
  rfl

theorem mixed_baselines : Discovery.baselines mixedAuthored "/o" {} = .ok [soleBaseline] := by
  apply Discovery.baselines_of_sorted (r := ["o".toList]) <;> decide +kernel

theorem found_after_authoring_mixed :
    soleAuthoring.run (soleEmitter "x") ((), mixedSources) =
        (.ok mixedSummary, ((), mixedAuthored)) ∧
      soleBaseline.path ∈ mixedSummary.written ∧
      mixedAuthored.hasFile soleBaseline.path = true ∧
      soleCheck.index mixedAuthored = .ok (some mixedIndex) ∧
      ∃ j : Job, j.path = soleBaseline.path ∧
        ((∃ n, Name.ofPath soleBaseline.path = .ok n) ↔ Name.Bracketed (lastPiece j.name.stem)) ∧
        ('/' ∉ j.name.stem →
          ((∃ n, Name.ofPath soleBaseline.path = .ok n) ↔ Name.Unmistakable j.name)) ∧
        (Discovery.Lists mixedAuthored "/o" [soleBaseline] soleBaseline.path ↔
          (∃ n, Name.ofPath soleBaseline.path = .ok n) ∧
            Below mixedAuthored "/o" soleBaseline.path) ∧
        soleCheck.Covers (soleEmitter "x") ((), mixedAuthored) [soleBaseline] := by
  have hrun := mixed_run
  have hmem : soleBaseline.path ∈ mixedSummary.written := by decide
  have hsources : soleCheck.index mixedAuthored = .ok (some mixedIndex) := by
    have hb : SourceIndex.build mixedAuthored "/s" = .ok mixedIndex := by
      rw [SourceIndex.build_of_sorted (r := ["s".toList])] <;> decide +kernel
    show (SourceIndex.build mixedAuthored "/s").map some = _
    rw [hb]
    rfl
  obtain ⟨index, -, hkept, hwritten⟩ := found_after_authoring soleAuthoring (soleEmitter "x") hrun
  obtain ⟨j, hj, hread, hplain, hfound⟩ := hwritten soleBaseline.path hmem
  have hfile := hkept (fun _ _ => rfl) soleBaseline.path hmem
  obtain ⟨found, hb, hlists, -, hcovers⟩ := hfound (by decide) hfile
  obtain rfl : [soleBaseline] = found := Except.ok.inj (mixed_baselines.symm.trans hb)
  exact ⟨hrun, hmem, hfile, hsources, j, hj.path, hread, hplain, hlists,
    hcovers soleCheck _ rfl rfl hsources (soleEmitter "x") ()⟩

/-- A test with parentheses in its name is authored, and its baseline is never found. -/
theorem found_after_authoring_mistaken :
    soleAuthoring.run (soleEmitter "x") ((), mixedSources) =
        (.ok mixedSummary, ((), mixedAuthored)) ∧
      mistakenPath ∈ mixedSummary.written ∧ mixedAuthored.hasFile mistakenPath = true ∧
      (∀ n, Name.ofPath mistakenPath ≠ .ok n) ∧
      Discovery.baselines mixedAuthored soleAuthoring.out {} = .ok [soleBaseline] := by
  have hread : Name.ofPath mistakenPath =
      .error (.unbalanced "a(1)(target=es5).1.normal.js".toList) := by
    decide +kernel
  refine ⟨mixed_run, by decide, by decide +kernel, fun n hn => ?_, mixed_baselines⟩
  rw [hread] at hn
  exact absurd hn (by simp)

end Authoring

end Baselines
