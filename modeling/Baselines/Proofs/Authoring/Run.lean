import Baselines.Proofs.Authoring.Request
import Baselines.Proofs.Discovery

/-!
# Runs of authorings

An authoring does the jobs of its sources one after the other. What one job can do is said here once,
and what each job keeps is kept by the run.
-/

namespace Baselines.Authoring

open Text

variable {σ : Type} {a : Authoring} {e : Emitter σ}

/-! ## 1. One job -/

/-- What a job can do: it is skipped, or the emitter gives no code, or its baseline is written, or it
cannot be written and ends the run. -/
inductive Does (a : Authoring) (e : Emitter σ) (t : Summary) (j : Job) (s : σ × Disk) :
    Except Trouble Summary × (σ × Disk) → Prop where
  | skipped (hs : a.skipExisting = true ∧ s.2.has j.path = true) :
      Does a e t j s (.ok { t with skipped := t.skipped + 1 }, s)
  | failed {fault : EmitFault} {s' : σ × Disk}
      (hs : ¬(a.skipExisting = true ∧ s.2.has j.path = true))
      (he : e.emit j.request s = (.error fault, s')) :
      Does a e t j s (.ok { t with failed := t.failed ++ [(j.name.id, fault.message)] }, s')
  | written {code : Text} {m : σ} {d d' : Disk}
      (hs : ¬(a.skipExisting = true ∧ s.2.has j.path = true))
      (he : e.emit j.request s = (.ok code, (m, d)))
      (hw : d.write j.path (authoredBytes j.request.file code) = .ok d') :
      Does a e t j s (.ok { t with written := t.written ++ [j.path] }, (m, d'))
  | refused {code : Text} {m : σ} {d : Disk} {x : DiskFault}
      (hs : ¬(a.skipExisting = true ∧ s.2.has j.path = true))
      (he : e.emit j.request s = (.ok code, (m, d)))
      (hw : d.write j.path (authoredBytes j.request.file code) = .error x) :
      Does a e t j s (.error (.unwritable j.path x), (m, d))

theorem does_runJob (a : Authoring) (e : Emitter σ) (t : Summary) (j : Job) (s : σ × Disk) :
    Does a e t j s (a.runJob e t j s) := by
  unfold runJob
  split
  · rename_i hskip
    exact .skipped hskip
  · rename_i hskip
    rcases he : e.emit j.request s with ⟨answer, m, d⟩
    cases answer with
    | error fault => exact .failed hskip he
    | ok code =>
      cases hw : d.write j.path (authoredBytes j.request.file code) with
      | error x =>
        simp only [hw]
        exact .refused hskip he hw
      | ok d' =>
        simp only [hw]
        exact .written hskip he hw

-- A job can do one thing only.
theorem Does.eq_runJob {t : Summary} {j : Job} {s : σ × Disk}
    {x : Except Trouble Summary × (σ × Disk)} (h : Does a e t j s x) : a.runJob e t j s = x := by
  unfold runJob
  cases h with
  | skipped hs => rw [if_pos hs]
  | failed hs he => rw [if_neg hs, he]
  | written hs he hw =>
    rw [if_neg hs, he]
    simp only [hw]
  | refused hs he hw =>
    rw [if_neg hs, he]
    simp only [hw]

/-! ## 2. Runs of jobs and of sources -/

section Steps

variable {t : Summary} {s s' : σ × Disk} {y : Except Trouble Summary}

-- The first job ends the run, or the others go on from what it leaves.
theorem runJobs_cons {j : Job} {js : List Job} (h : a.runJobs e (j :: js) t s = (y, s')) :
    (∃ x, y = .error x ∧ a.runJob e t j s = (.error x, s')) ∨
      ∃ t₁ u, a.runJob e t j s = (.ok t₁, u) ∧ a.runJobs e js t₁ u = (y, s') := by
  rw [runJobs] at h
  rcases hk : a.runJob e t j s with ⟨z, u⟩
  rw [hk] at h
  cases z with
  | error x =>
    obtain ⟨rfl, rfl⟩ := Prod.mk.inj h
    exact Or.inl ⟨x, rfl, rfl⟩
  | ok t₁ => exact Or.inr ⟨t₁, u, rfl, h⟩

theorem runSources_cons {entry : Text × Path} {rest : List (Text × Path)}
    (h : a.runSources e (entry :: rest) t s = (y, s')) :
    (∃ x, y = .error x ∧ a.runSource e t entry s = (.error x, s')) ∨
      ∃ t₁ u, a.runSource e t entry s = (.ok t₁, u) ∧ a.runSources e rest t₁ u = (y, s') := by
  rw [runSources] at h
  rcases hk : a.runSource e t entry s with ⟨z, u⟩
  rw [hk] at h
  cases z with
  | error x =>
    obtain ⟨rfl, rfl⟩ := Prod.mk.inj h
    exact Or.inl ⟨x, rfl, rfl⟩
  | ok t₁ => exact Or.inr ⟨t₁, u, rfl, h⟩

end Steps

/-! ## 3. Invariants -/

/-- The source that the jobs of an entry are made from. -/
structure SourceOf (entry : Text × Path) (source : Source) : Prop where
  loaded : ∃ d, loadSource d entry.2 = .ok source

theorem SourceOf.directives {entry : Text × Path} {source : Source} (h : SourceOf entry source) :
    source.directives = Directives.parse source.text := by
  obtain ⟨d, hd⟩ := h.loaded
  exact directives_eq_parse (loadSource_ok hd)

section Invariant

variable {P : Summary → σ × Disk → Prop} {t t' : Summary} {s s' : σ × Disk}

theorem runJobs_invariant {js : List Job}
    (hjob : ∀ j ∈ js, ∀ t s t' s', P t s → a.runJob e t j s = (.ok t', s') → P t' s')
    (h : P t s) (hr : a.runJobs e js t s = (.ok t', s')) : P t' s' := by
  induction js generalizing t s with
  | nil =>
    obtain ⟨ht, rfl⟩ := Prod.mk.inj hr
    rwa [← Except.ok.inj ht]
  | cons j r ih =>
    obtain ⟨x, hx, -⟩ | ⟨t₁, u, hk, hr⟩ := runJobs_cons hr
    · exact absurd hx (by simp)
    · have h₁ := hjob j List.mem_cons_self t s t₁ u h hk
      exact ih (fun k hk => hjob k (List.mem_cons_of_mem j hk)) h₁ hr

/-- What holds at the start and is kept by each job, and by the note of each source that cannot be
used, holds at the end. -/
theorem runSources_invariant {index : List (Text × Path)}
    (hnote : ∀ entry ∈ index, ∀ message t s, P t s →
      P { t with failed := t.failed ++ [(entry.1, message)] } s)
    (hjob : ∀ entry ∈ index, ∀ source, SourceOf entry source → ∀ j ∈ a.jobs entry.1 source,
      ∀ t s t' s', P t s → a.runJob e t j s = (.ok t', s') → P t' s')
    (h : P t s) (hr : a.runSources e index t s = (.ok t', s')) : P t' s' := by
  induction index generalizing t s with
  | nil =>
    obtain ⟨ht, rfl⟩ := Prod.mk.inj hr
    rwa [← Except.ok.inj ht]
  | cons entry r ih =>
    obtain ⟨x, hx, -⟩ | ⟨t₁, u, hk, hr⟩ := runSources_cons hr
    · exact absurd hx (by simp)
    · have h₁ : P t₁ u := by
        unfold runSource at hk
        split at hk
        · obtain ⟨ht, rfl⟩ := Prod.mk.inj hk
          rw [← Except.ok.inj ht]
          exact hnote entry List.mem_cons_self _ t s h
        · rename_i source hs
          exact runJobs_invariant (hjob entry List.mem_cons_self source ⟨s.2, hs⟩) h hk
      exact ih (fun x hx => hnote x (List.mem_cons_of_mem entry hx))
        (fun x hx => hjob x (List.mem_cons_of_mem entry hx)) h₁ hr

end Invariant

/-! ## 4. Whole runs -/

theorem run_of_index {s : σ × Disk} {index : SourceIndex} {d : Disk}
    (hi : SourceIndex.build s.2 a.sources = .ok index) (hm : s.2.makeFolders a.out = .ok d) :
    a.run e s = a.runSources e index {} (s.1, d) := by
  unfold run
  simp only [hi, hm]

/-- A run that ends well has made the folder and gone through the sources. -/
theorem run_ok {s s' : σ × Disk} {t : Summary} (h : a.run e s = (.ok t, s')) :
    ∃ index d, SourceIndex.build s.2 a.sources = .ok index ∧ s.2.makeFolders a.out = .ok d ∧
      a.runSources e index {} (s.1, d) = (.ok t, s') := by
  unfold run at h
  cases hi : SourceIndex.build s.2 a.sources with
  | error x =>
    rw [hi] at h
    exact absurd (congrArg Prod.fst h) (by simp)
  | ok index =>
    cases hm : s.2.makeFolders a.out with
    | error x =>
      rw [hi, hm] at h
      exact absurd (congrArg Prod.fst h) (by simp)
    | ok d =>
      rw [hi, hm] at h
      exact ⟨index, d, rfl, rfl, h⟩

end Baselines.Authoring
