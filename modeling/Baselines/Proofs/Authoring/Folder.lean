import Baselines.Proofs.Authoring.Sources

/-!
# Jobs in a folder of files

Where baselines are written into a folder without folders in it, a job changes what stands under the
name of its baseline only. What it does depends on what stood there and on the answer of the emitter,
so it is the same in every folder in which the same stands under the names of the jobs.
-/

namespace Baselines

open Text

/-- From memories that are related an emitter answers alike, whatever stands on the disk, and it goes
on to related ones. It leaves the disk alone. -/
structure Emitter.Alike {σ : Type} (e : Emitter σ) (R : σ → σ → Prop) : Prop where
  answer : ∀ r d d' {m m'}, R m m' → (e.emit r (m, d)).1 = (e.emit r (m', d')).1
  memory : ∀ r d d' {m m'}, R m m' → R (e.emit r (m, d)).2.1 (e.emit r (m', d')).2.1
  disk : ∀ r s, (e.emit r s).2.2 = s.2

theorem Emitter.Functional.alike {σ : Type} {e : Emitter σ} {answer : Request → Answer}
    (h : e.Functional answer) : e.Alike fun _ _ => True where
  answer r d d' m m' _ := by rw [h.answer, h.answer]
  memory _ _ _ _ _ _ := trivial
  disk := h.disk

-- What an emitter answers from one state it answers from every state with a related memory.
theorem Emitter.Alike.emit_eq {σ : Type} {e : Emitter σ} {R : σ → σ → Prop} (he : e.Alike R)
    {u v u' : σ × Disk} (h : R u.1 v.1) {req : Request} {answer : Answer}
    (hu : e.emit req u = (answer, u')) :
    ∃ m, e.emit req v = (answer, (m, v.2)) ∧ R u'.1 m ∧ u'.2 = u.2 := by
  have ha := he.answer req u.2 v.2 h
  have hm := he.memory req u.2 v.2 h
  have hd := he.disk req u
  have hd' := he.disk req v
  rw [hu] at ha hm hd
  exact ⟨(e.emit req v).2.1, Prod.ext ha.symm (Prod.ext rfl hd'), hm, hd⟩

namespace Authoring

open Disk

variable {σ : Type} {a : Authoring} {e : Emitter σ} {R : σ → σ → Prop} {d d' d₁ : Disk} {r r' : Place}

/-! ## 1. Summaries -/

namespace Summary

/-- What was done first, and then. -/
def append (t u : Summary) : Summary where
  written := t.written ++ u.written
  skipped := t.skipped + u.skipped
  failed := t.failed ++ u.failed

/-- What was done in parts. -/
def joined (parts : List Summary) : Summary := parts.foldl append {}

theorem append_empty (t : Summary) : t.append {} = t := by
  simp [append]

theorem empty_append (t : Summary) : append {} t = t := by
  simp [append]

theorem append_assoc (t u v : Summary) : (t.append u).append v = t.append (u.append v) := by
  simp [append, Nat.add_assoc]

end Summary

/-! ## 2. Jobs of sources -/

/-- The jobs of an entry, whose source stands on a disk; one that cannot be used has none. -/
def jobsOf (a : Authoring) (d : Disk) (entry : Text × Path) : List Job :=
  match loadSource d entry.2 with
  | .ok source => a.jobs entry.1 source
  | .error _ => []

/-- No two sources have baselines of one name. -/
def Apart (a : Authoring) (d : Disk) (index : List (Text × Path)) : Prop :=
  index.Pairwise fun x y => ∀ j ∈ a.jobsOf d x, ∀ k ∈ a.jobsOf d y, j.name.render ≠ k.name.render

/-- The job is of a test without a slash in its name. -/
def Plain (a : Authoring) (j : Job) : Prop := ∃ test source, j ∈ a.jobs test source ∧ '/' ∉ test

-- What can be a file in the folder where baselines are written.
def Fits (a : Authoring) (j : Job) : Prop := Writable a.out j.name.render

instance (a : Authoring) (j : Job) : Decidable (a.Fits j) :=
  inferInstanceAs (Decidable (Writable a.out j.name.render))

theorem mem_jobsOf {entry : Text × Path} {j : Job} (h : j ∈ a.jobsOf d entry) :
    ∃ source, loadSource d entry.2 = .ok source ∧ j ∈ a.jobs entry.1 source := by
  unfold jobsOf at h
  split at h
  · rename_i source hs
    exact ⟨source, hs, h⟩
  · exact absurd h List.not_mem_nil

-- A source is noted as one that cannot be used, or its jobs are done.
theorem runSource_cases (a : Authoring) (e : Emitter σ) (d : Disk) (entry : Text × Path) :
    (∃ x : Trouble, a.jobsOf d entry = [] ∧ ∀ t u,
      loadSource u.2 entry.2 = loadSource d entry.2 →
        a.runSource e t entry u = (.ok { t with failed := t.failed ++ [(entry.1, x.message)] }, u)) ∨
      ∀ t u, loadSource u.2 entry.2 = loadSource d entry.2 →
        a.runSource e t entry u = a.runJobs e (a.jobsOf d entry) t u := by
  unfold jobsOf
  cases hl : loadSource d entry.2 with
  | error x =>
    refine Or.inl ⟨x, rfl, fun t u hu => ?_⟩
    rw [runSource, hu]
  | ok source =>
    refine Or.inr fun t u hu => ?_
    rw [runSource, hu]

-- A name with one parenthesis before its options tells its test.
theorem render_job_first {test : Text} {source : Source} {j : Job} (hj : j ∈ a.jobs test source)
    (ht : '(' ∉ test) : ∃ rest, splitFirst? '(' j.name.render = some (test, rest) := by
  obtain ⟨inner, hstem⟩ := exists_stem_job hj
  refine ⟨inner ++ ')' :: Name.ending j.request.stage, ?_⟩
  have hrender : j.name.render =
      test ++ '(' :: (inner ++ ')' :: Name.ending j.request.stage) := by
    rw [render_job hj, hstem]
    simp
  rw [hrender, splitFirst?_append ht]

/-- Sources have baselines of different names when no test has an opening parenthesis in its name. -/
theorem apart_of_tests {index : SourceIndex} (hi : SourceIndex.build d' a.sources = .ok index)
    (h : ∀ entry ∈ index, '(' ∉ entry.1) : a.Apart d index := by
  have hkeys : index.Pairwise fun x y => x.1 ≠ y.1 :=
    List.pairwise_map.1 (SourceIndex.nodup_build hi)
  apply hkeys.imp_of_mem
  intro x y hx hy hne j hj k hk heq
  obtain ⟨source, -, hj⟩ := mem_jobsOf hj
  obtain ⟨source', -, hk⟩ := mem_jobsOf hk
  obtain ⟨rest, hjs⟩ := render_job_first hj (h x hx)
  obtain ⟨rest', hks⟩ := render_job_first hk (h y hy)
  rw [heq, hks, Option.some.injEq, Prod.mk.injEq] at hjs
  exact hne hjs.1.symm

/-! ## 3. Jobs in a folder of files -/

section Shelf

variable {j : Job} (hp : a.Plain j) (h : Shelf d a.out r)

include hp h

theorem locate_job {q : Place} :
    d.locate j.path = .ok q ↔ a.Fits j ∧ q = r ++ [j.name.render] := by
  obtain ⟨test, source, hj, ht⟩ := hp
  obtain ⟨first, rest, hs, hf⟩ := exists_first hj ht
  rw [path_job hj]
  exact h.locate_append hs hf

theorem has_job : d.has j.path = true ↔ a.Fits j ∧ d.node? (r ++ [j.name.render]) ≠ none := by
  obtain ⟨test, source, hj, ht⟩ := hp
  obtain ⟨first, rest, hs, hf⟩ := exists_first hj ht
  rw [path_job hj]
  exact h.has_append hs hf

theorem write_job (hw : a.Fits j) (bytes : Bytes) : ∃ d', d.write j.path bytes = .ok d' ∧
    Filled (· = r ++ [j.name.render]) d d' ∧
      d'.node? (r ++ [j.name.render]) = some (.file bytes) := by
  obtain ⟨test, source, hj, ht⟩ := hp
  obtain ⟨first, rest, hs, hf⟩ := exists_first hj ht
  rw [path_job hj]
  exact h.write_append hs hf hw bytes

theorem fits_of_write {bytes : Bytes} (hw : d.write j.path bytes = .ok d') : a.Fits j := by
  obtain ⟨p, hl, -⟩ := write_ok hw
  exact ((locate_job hp h).1 hl).1

theorem filled_of_write {bytes : Bytes} (hw : d.write j.path bytes = .ok d') :
    Filled (· = r ++ [j.name.render]) d d' ∧
      d'.node? (r ++ [j.name.render]) = some (.file bytes) := by
  obtain ⟨k, hk, hfilled, hn⟩ := write_job hp h (fits_of_write hp h hw) bytes
  obtain rfl := Except.ok.inj (hk.symm.trans hw)
  exact ⟨hfilled, hn⟩

end Shelf

/-- What an entry finds when its turn comes: its source, and a folder without folders in it. -/
structure Turn (a : Authoring) (d : Disk) (r : Place) (entry : Text × Path) (u : σ × Disk) : Prop where
  plain : ∀ j ∈ a.jobsOf d entry, a.Plain j
  shelf : Shelf u.2 a.out r
  load : loadSource u.2 entry.2 = loadSource d entry.2

/-- The place is that of the baseline of one of the jobs. -/
def Taken (r : Place) (js : List Job) (p : Place) : Prop := ∃ j ∈ js, p = r ++ [j.name.render]

section Quiet

variable (he : ∀ req u, (e.emit req u).2.2 = u.2)

include he

-- A job changes what stands under its own name only.
theorem filled_runJob {j : Job} {t : Summary} {s s' : σ × Disk} {x : Except Trouble Summary}
    (hp : a.Plain j) (h : Shelf s.2 a.out r) (hr : a.runJob e t j s = (x, s')) :
    Filled (· = r ++ [j.name.render]) s.2 s'.2 := by
  have hdoes := does_runJob a e t j s
  have hquiet := he j.request s
  rw [hr] at hdoes
  cases hdoes with
  | skipped _ => exact .refl s.2
  | failed _ hemit =>
    rw [hemit] at hquiet
    rw [hquiet]
    exact .refl s.2
  | written _ hemit hw =>
    rw [hemit] at hquiet
    obtain rfl : _ = s.2 := hquiet
    exact (filled_of_write hp h hw).1
  | refused _ hemit _ =>
    rw [hemit] at hquiet
    obtain rfl : _ = s.2 := hquiet
    exact .refl _

theorem filled_runJobs {js : List Job} {t t' : Summary} {s s' : σ × Disk}
    (hp : ∀ j ∈ js, a.Plain j) (h : Shelf s.2 a.out r)
    (hr : a.runJobs e js t s = (.ok t', s')) : Filled (Taken r js) s.2 s'.2 := by
  refine runJobs_invariant (P := fun _ u => Filled (Taken r js) s.2 u.2) ?_ (.refl s.2) hr
  intro j hj t u t' u' hu hr
  have hstep := filled_runJob he (hp j hj) (h.of_same hu.toSameFolders) hr
  exact hu.trans (hstep.mono fun p hpj => ⟨j, hj, hpj⟩)

theorem filled_runSource {entry : Text × Path} {t t' : Summary} {s s' : σ × Disk}
    (h : Turn a d r entry s) (hr : a.runSource e t entry s = (.ok t', s')) :
    Filled (Taken r (a.jobsOf d entry)) s.2 s'.2 := by
  rcases runSource_cases a e d entry with ⟨x, hjobs, hrun⟩ | hrun
  · rw [hrun t s h.load] at hr
    obtain ⟨-, rfl⟩ := Prod.mk.inj hr
    exact .refl s.2
  · rw [hrun t s h.load] at hr
    exact filled_runJobs he h.plain h.shelf hr

end Quiet

/-! ## 4. Two folders side by side -/

/-- Two states are alike for jobs: the emitter cannot tell them apart, and in the folders of both the
same stands under the names of the jobs. -/
structure Twin (a : Authoring) (R : σ → σ → Prop) (r r' : Place) (js : List Job)
    (u v : σ × Disk) : Prop where
  memory : R u.1 v.1
  left : Shelf u.2 a.out r
  right : Shelf v.2 a.out r'
  same : ∀ j ∈ js, u.2.node? (r ++ [j.name.render]) = v.2.node? (r' ++ [j.name.render])

/-- A run has added a part to the summary, and from every state that is alike it adds the same. -/
def Adds (a : Authoring) (R : σ → σ → Prop) (js : List Job)
    (run : Summary → σ × Disk → Except Trouble Summary × (σ × Disk))
    (t : Summary) (u : σ × Disk) (t' : Summary) (u' : σ × Disk) : Prop :=
  ∃ part : Summary, t' = t.append part ∧ (∀ path ∈ part.written, ∃ j ∈ js, path = j.path) ∧
    ∀ r r' v, Twin a R r r' js u v →
      ∃ v', (∀ t, run t v = (.ok (t.append part), v')) ∧ Twin a R r r' js u' v'

section Adds

variable {js : List Job} {t t' : Summary} {u u' : σ × Disk}

theorem adds_runJob (he : e.Alike R) {j : Job} (hj : j ∈ js) (hp : a.Plain j)
    (hr : a.runJob e t j u = (.ok t', u')) :
    Adds a R js (fun t v => a.runJob e t j v) t u t' u' := by
  have hskip : ∀ {r r' v}, Twin a R r r' js u v →
      (a.skipExisting = true ∧ u.2.has j.path = true ↔
        a.skipExisting = true ∧ v.2.has j.path = true) := by
    intro r r' v h
    rw [has_job hp h.left, has_job hp h.right, h.same j hj]
  have hdoes := does_runJob a e t j u
  rw [hr] at hdoes
  cases hdoes with
  | skipped hs =>
    refine ⟨{ skipped := 1 }, by simp [Summary.append], by simp, fun r r' v h => ⟨v, fun t => ?_, h⟩⟩
    have hsame := (Does.skipped (e := e) (t := t) ((hskip h).1 hs)).eq_runJob
    simpa [Summary.append] using hsame
  | @failed fault _ hs hemit =>
    refine ⟨{ failed := [(j.name.id, fault.message)] }, by simp [Summary.append], by simp,
      fun r r' v h => ?_⟩
    obtain ⟨m, hv, hm, hd⟩ := he.emit_eq h.memory hemit
    refine ⟨(m, v.2), fun t => ?_, ⟨hm, hd ▸ h.left, h.right, fun k hk => ?_⟩⟩
    · have hsame := (Does.failed (t := t) (fun hn => hs ((hskip h).2 hn)) hv).eq_runJob
      simpa [Summary.append] using hsame
    · rw [hd]
      exact h.same k hk
  | @written code m d d' hs hemit hw =>
    refine ⟨{ written := [j.path] }, by simp [Summary.append],
      fun path hpath => ⟨j, hj, List.mem_singleton.1 hpath⟩, fun r r' v h => ?_⟩
    obtain ⟨m', hv, hm, hd⟩ := he.emit_eq h.memory hemit
    obtain rfl : d = u.2 := hd
    obtain ⟨hfilled, hn⟩ := filled_of_write hp h.left hw
    obtain ⟨k, hk, hfilled', hn'⟩ := write_job hp h.right (fits_of_write hp h.left hw)
      (authoredBytes j.request.file code)
    refine ⟨(m', k), fun t => ?_, ⟨hm, h.left.of_same hfilled.toSameFolders,
      h.right.of_same hfilled'.toSameFolders, fun i hi => ?_⟩⟩
    · have hsame := (Does.written (t := t) (fun hn => hs ((hskip h).2 hn)) hv hk).eq_runJob
      simpa [Summary.append] using hsame
    · -- the same bytes were written on both sides, and nothing else has changed
      by_cases hname : i.name.render = j.name.render
      · rw [hname, hn, hn']
      · have hne : ∀ q : Place, q ++ [i.name.render] ≠ q ++ [j.name.render] := by
          intro q heq
          simp [hname] at heq
        rw [hfilled.kept _ (hne r), hfilled'.kept _ (hne r')]
        exact h.same i hi

theorem adds_runJobs (he : e.Alike R) {xs : List Job} (hxs : ∀ j ∈ xs, j ∈ js)
    (hp : ∀ j ∈ js, a.Plain j) (hr : a.runJobs e xs t u = (.ok t', u')) :
    Adds a R js (a.runJobs e xs) t u t' u' := by
  induction xs generalizing t u with
  | nil =>
    obtain ⟨ht, rfl⟩ := Prod.mk.inj hr
    refine ⟨{}, by rw [← Except.ok.inj ht, Summary.append_empty], by simp, fun r r' v h => ⟨v, ?_, h⟩⟩
    intro t
    rw [Summary.append_empty]
    rfl
  | cons j rest ih =>
    obtain ⟨x, hx, -⟩ | ⟨t₁, u₁, hk, hr⟩ := runJobs_cons hr
    · exact absurd hx (by simp)
    · have hj := hxs j List.mem_cons_self
      obtain ⟨part, rfl, hpart, hfirst⟩ := adds_runJob he hj (hp j hj) hk
      obtain ⟨more, rfl, hmore, hthen⟩ := ih (fun k hk => hxs k (List.mem_cons_of_mem j hk)) hr
      refine ⟨part.append more, Summary.append_assoc _ _ _, fun path hpath => ?_,
        fun r r' v h => ?_⟩
      · exact (List.mem_append.1 hpath).elim (hpart path) (hmore path)
      · obtain ⟨v₁, hv₁, h₁⟩ := hfirst r r' v h
        obtain ⟨v₂, hv₂, h₂⟩ := hthen r r' v₁ h₁
        refine ⟨v₂, fun t => ?_, h₂⟩
        have hone : a.runJob e t j v = _ := hv₁ t
        rw [runJobs, hone]
        simp only
        rw [hv₂, Summary.append_assoc]

/-- A source adds to the summary what it adds to every other one, where it is loaded alike. -/
theorem adds_runSource (he : e.Alike R) {entry : Text × Path}
    (hp : ∀ j ∈ a.jobsOf d entry, a.Plain j) (hs : loadSource u.2 entry.2 = loadSource d entry.2)
    (hr : a.runSource e t entry u = (.ok t', u')) :
    ∃ part : Summary, t' = t.append part ∧
      (∀ path ∈ part.written, ∃ j ∈ a.jobsOf d entry, path = j.path) ∧
      ∀ r r' v, Twin a R r r' (a.jobsOf d entry) u v →
        loadSource v.2 entry.2 = loadSource d entry.2 →
        ∃ v', (∀ t, a.runSource e t entry v = (.ok (t.append part), v')) ∧
          Twin a R r r' (a.jobsOf d entry) u' v' := by
  rcases runSource_cases a e d entry with ⟨x, hjobs, hrun⟩ | hrun
  · rw [hrun t u hs] at hr
    obtain ⟨ht, rfl⟩ := Prod.mk.inj hr
    refine ⟨{ failed := [(entry.1, x.message)] }, ?_, by simp, fun r r' v h hv => ⟨v, ?_, h⟩⟩
    · rw [← Except.ok.inj ht]
      simp [Summary.append]
    · intro t
      rw [hrun t v hv]
      simp [Summary.append]
  · rw [hrun t u hs] at hr
    obtain ⟨part, ht, hpart, hthen⟩ := adds_runJobs he (fun _ hj => hj) hp hr
    refine ⟨part, ht, hpart, fun r r' v h hv => ?_⟩
    obtain ⟨v', hv', h'⟩ := hthen r r' v h
    exact ⟨v', fun t => (hrun t v hv).trans (hv' t), h'⟩

end Adds

end Authoring

end Baselines
