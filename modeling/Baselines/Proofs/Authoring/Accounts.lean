import Baselines.Proofs.Authoring.Course
import Baselines.Proofs.Authoring.Distinct

/-!
# The accounts of an authoring

With an emitter that leaves the disk alone, the summary of an authoring accounts for all that it does:
for every job and every source, and for every file that is not what it was. Done again where what is
there is skipped, it does nothing.
-/

namespace Baselines.Authoring

open Disk

variable {σ : Type} {a : Authoring} {e : Emitter σ} {d d' d₁ : Disk} {u v : σ × Disk}
  {log : List Event} {t : Summary} {index : SourceIndex}

/-! ## 1. What is written where -/

/-- A baseline was written to the place. -/
def WrittenAt (d : Disk) (log : List Event) (p : Place) : Prop :=
  ∃ j code, Event.written j code ∈ log ∧ d.locate j.path = .ok p

/-- The last that was written to the place is the code of the job. -/
def Last (d : Disk) (log : List Event) (p : Place) (j : Job) (code : Text) : Prop :=
  ∃ before after, log = before ++ .written j code :: after ∧ d.locate j.path = .ok p ∧
    ¬ WrittenAt d after p

theorem WrittenAt.of_same (h : SameFolders d d') {p : Place} :
    WrittenAt d' log p ↔ WrittenAt d log p := by
  simp only [WrittenAt, h.locate_iff]

theorem Last.of_same (h : SameFolders d d') {p : Place} {j : Job} {code : Text} :
    Last d' log p j code ↔ Last d log p j code := by
  simp only [Last, h.locate_iff, WrittenAt.of_same h]

theorem WrittenAt.cons {event : Event} {p : Place} (h : WrittenAt d log p) :
    WrittenAt d (event :: log) p := by
  obtain ⟨j, code, hm, hp⟩ := h
  exact ⟨j, code, List.mem_cons_of_mem event hm, hp⟩

theorem Last.cons {event : Event} {p : Place} {j : Job} {code : Text} (h : Last d log p j code) :
    Last d (event :: log) p j code := by
  obtain ⟨before, after, rfl, hp⟩ := h
  exact ⟨event :: before, after, rfl, hp⟩

theorem Last.mem {p : Place} {j : Job} {code : Text} (h : Last d log p j code) :
    Event.written j code ∈ log := by
  obtain ⟨before, after, rfl, -⟩ := h
  simp

/-! ## 2. What a course changes -/

section Quiet

variable (he : ∀ req u, (e.emit req u).2.2 = u.2)

include he

theorem Step.filled {event : Event} (h : Step a e u event v) :
    Filled (WrittenAt u.2 [event]) u.2 v.2 := by
  rcases h.disk he with ⟨hd, -⟩ | ⟨j, code, rfl, -, hw⟩
  · rw [hd]
    exact .refl u.2
  · obtain ⟨p, hp, hsame, -, hother⟩ := sameFolders_write hw
    refine ⟨hsame, fun q hq => hother q ?_⟩
    rintro rfl
    exact hq ⟨j, code, List.mem_singleton.2 rfl, hp⟩

/-- A course changes what stands at places to which it has written, and nothing else. -/
theorem Course.filled (h : Course a e u log v) : Filled (WrittenAt u.2 log) u.2 v.2 := by
  induction h with
  | nil u => exact .refl u.2
  | @cons u v w event log first _ ih =>
    have hfirst := first.filled he
    refine (hfirst.mono ?_).trans (ih.mono ?_)
    · rintro p ⟨j, code, hm, hp⟩
      exact ⟨j, code, List.mem_singleton.1 hm ▸ List.mem_cons_self, hp⟩
    · intro p hp
      exact ((WrittenAt.of_same hfirst.toSameFolders).1 hp).cons

/-- What was written last to a place stands there. -/
theorem Course.last (h : Course a e u log v) {p : Place} (hp : WrittenAt u.2 log p) :
    ∃ j code, Last u.2 log p j code ∧
      v.2.node? p = some (.file (authoredBytes j.request.file code)) := by
  induction h with
  | nil u =>
    obtain ⟨j, code, hm, -⟩ := hp
    exact absurd hm List.not_mem_nil
  | @cons u v w event log first rest ih =>
    have hsame := (first.filled he).toSameFolders
    by_cases hlater : WrittenAt v.2 log p
    · obtain ⟨j, code, hlast, hn⟩ := ih hlater
      exact ⟨j, code, ((Last.of_same hsame).1 hlast).cons, hn⟩
    · -- nothing is written there later, so the first event has written what stays
      have hkept := (rest.filled he).kept p hlater
      rw [WrittenAt.of_same hsame] at hlater
      obtain ⟨j, code, hm, hl⟩ := hp
      rcases List.mem_cons.1 hm with rfl | hm
      · refine ⟨j, code, ⟨[], log, rfl, hl, hlater⟩, ?_⟩
        rcases first.disk he with ⟨-, hno⟩ | ⟨k, c, hk, -, hw⟩
        · exact absurd rfl (hno j code)
        · obtain ⟨rfl, rfl⟩ := Event.written.inj hk
          obtain ⟨q, hq, -, hn, -⟩ := sameFolders_write hw
          obtain rfl := Except.ok.inj (hl.symm.trans hq)
          rw [hkept, hn]
      · exact absurd ⟨j, code, hm, hl⟩ hlater

/-- Where what is there is skipped, it stays. -/
theorem Course.grown (hs : a.skipExisting = true) (h : Course a e u log v) : Grown u.2 v.2 := by
  induction h with
  | nil u => exact .refl u.2
  | @cons u v w event log first _ ih =>
    refine Grown.trans ?_ ih
    rcases first.disk he with ⟨hd, -⟩ | ⟨j, code, -, hnew, hw⟩
    · rw [hd]
      exact .refl u.2
    · obtain ⟨p, hp, hsame, -, hother⟩ := sameFolders_write hw
      refine ⟨hsame.start, fun q n hn => ?_⟩
      have hqp : q ≠ p := by
        rintro rfl
        exact hnew ⟨hs, has_iff.2 ⟨q, n, hp, hn⟩⟩
      rw [hother q hqp, hn]

theorem Course.has_of_has (h : Course a e u log v) {path : Path} (hp : u.2.has path = true) :
    v.2.has path = true := by
  induction h with
  | nil u => exact hp
  | @cons u v w event log first _ ih =>
    apply ih
    rcases first.disk he with ⟨hd, -⟩ | ⟨j, code, -, -, hw⟩
    · rwa [hd]
    · exact has_write hw (Or.inr hp)

/-- What was skipped or written is there. -/
theorem Course.has (h : Course a e u log v) {j : Job}
    (hj : Event.skipped j ∈ log ∨ ∃ code, Event.written j code ∈ log) : v.2.has j.path = true := by
  induction h with
  | nil u => exact absurd hj (by simp)
  | @cons u v w event log first rest ih =>
    have hcases : (Event.skipped j ∈ log ∨ ∃ code, Event.written j code ∈ log) ∨
        event = .skipped j ∨ ∃ code, event = .written j code := by
      rcases hj with hj | ⟨code, hj⟩
      · exact (List.mem_cons.1 hj).symm.imp Or.inl fun h => Or.inl h.symm
      · exact (List.mem_cons.1 hj).symm.imp (fun h => Or.inr ⟨code, h⟩)
          fun h => Or.inr ⟨code, h.symm⟩
    rcases hcases with hj | rfl | ⟨code, rfl⟩
    · exact ih hj
    · cases first with
      | skipped hs => exact rest.has_of_has he hs.2
    · apply rest.has_of_has he
      rcases first.disk he with ⟨-, hno⟩ | ⟨k, c, hk, -, hw⟩
      · exact absurd rfl (hno j code)
      · obtain ⟨rfl, rfl⟩ := Event.written.inj hk
        exact has_write hw (Or.inl rfl)

theorem quiet_recording : ∀ req u, (e.recording.emit req u).2.2 = u.2 := fun req u =>
  he req (u.1.1, u.2)

end Quiet

/-! ## 3. Doing it again -/

section Again

variable (hs : a.skipExisting = true)

include hs

theorem runJobs_skipped {js : List Job} (hp : ∀ j ∈ js, u.2.has j.path = true) (t : Summary) :
    a.runJobs e js t u = (.ok { t with skipped := t.skipped + js.length }, u) := by
  induction js generalizing t with
  | nil => rfl
  | cons j r ih =>
    have hone := (Does.skipped (e := e) (t := t) ⟨hs, hp j List.mem_cons_self⟩).eq_runJob
    rw [runJobs, hone]
    show a.runJobs e r _ u = _
    rw [ih fun k hk => hp k (List.mem_cons_of_mem j hk), List.length_cons]
    simp only [Prod.mk.injEq, and_true, Except.ok.injEq, Summary.mk.injEq, true_and]
    omega

/-- Where all sources can be used, and all of their baselines are there, everything is skipped. -/
theorem runSources_skipped {rest : List (Text × Path)}
    (hl : ∀ entry ∈ rest, ∃ source, loadSource u.2 entry.2 = .ok source)
    (hp : ∀ j, Item.job j ∈ a.agenda u.2 rest → u.2.has j.path = true) (t : Summary) :
    a.runSources e rest t u =
      (.ok { t with skipped := t.skipped + (a.agenda u.2 rest).length }, u) := by
  induction rest generalizing t with
  | nil => rfl
  | cons entry rest ih =>
    obtain ⟨source, hsource⟩ := hl entry List.mem_cons_self
    have hitems : a.items u.2 entry = (a.jobs entry.1 source).map .job := by
      unfold items
      rw [hsource]
    have hagenda : a.agenda u.2 (entry :: rest) =
        (a.jobs entry.1 source).map .job ++ a.agenda u.2 rest := by
      unfold agenda
      rw [List.flatMap_cons, hitems]
    rw [hagenda] at hp ⊢
    have hjobs : ∀ j ∈ a.jobs entry.1 source, u.2.has j.path = true := fun j hj =>
      hp j (List.mem_append_left _ (List.mem_map_of_mem hj))
    have hone := runJobs_skipped (e := e) hs hjobs t
    rw [runSources, runSource, hsource]
    simp only
    rw [hone]
    show a.runSources e rest _ u = _
    rw [ih (fun x hx => hl x (List.mem_cons_of_mem entry hx))
      (fun j hj => hp j (List.mem_append_right _ hj)), List.length_append, List.length_map]
    simp only [Prod.mk.injEq, and_true, Except.ok.injEq, Summary.mk.injEq, true_and]
    omega

end Again

theorem agenda_congr {rest : List (Text × Path)}
    (h : ∀ entry ∈ rest, loadSource d' entry.2 = loadSource d entry.2) :
    a.agenda d' rest = a.agenda d rest := by
  unfold agenda
  apply List.flatMap_congr
  intro entry hentry
  unfold items
  rw [h entry hentry]

-- Without a failure the job of every item was skipped or written, and no item is a note.
theorem done_of_no_failure (hf : (tally log).failed = []) {item : Item}
    (hm : item ∈ log.map Event.item) : ∃ j, item = .job j ∧
      (Event.skipped j ∈ log ∨ ∃ code, Event.written j code ∈ log) := by
  obtain ⟨event, hevent, rfl⟩ := List.mem_map.1 hm
  obtain ⟨j, rfl | ⟨code, rfl⟩⟩ := skipped_or_written hf hevent
  · exact ⟨j, rfl, Or.inl hevent⟩
  · exact ⟨j, rfl, Or.inr ⟨code, hevent⟩⟩

/-! ## 4. The accounts -/

/-- What is known of a run that has ended well: where it has started, the events that it has gone
through, and what they say of the summary, the files and the emitter. -/
structure Accounts (a : Authoring) (e : Emitter σ) (m : σ) (d : Disk) (t : Summary) (s : σ × Disk)
    (index : SourceIndex) (d₁ : Disk) (log : List Event) : Prop where
  indexed : SourceIndex.build d a.sources = .ok index
  made : d.makeFolders a.out = .ok d₁
  /-- Every job of every source has one event, in the order of the jobs, and so has every source that
  cannot be used. -/
  agenda : log.map Event.item = a.agenda d index
  course : Course a e (m, d₁) log s
  summary : t = tally log
  count : t.written.length + t.skipped + t.failed.length = (index.map (a.workload d)).sum
  /-- A file to which no path that was written leads is what it was. -/
  frame : ∀ p, (∀ path ∈ t.written, s.2.locate path ≠ .ok p) →
    ∀ bytes, s.2.node? p = some (.file bytes) ↔ d.node? p = some (.file bytes)
  /-- A path that was written leads to a file with the last output that was written there, and without
  slashes in names this is the last output for the path itself. -/
  held : ∀ path ∈ t.written, ∃ p j code, s.2.locate path = .ok p ∧ Last s.2 log p j code ∧
    s.2.node? p = some (.file (authoredBytes j.request.file code)) ∧
    ((∀ k, Item.job k ∈ a.agenda d index → '/' ∉ k.name.render) → j.path = path)
  /-- The emitter has got the requests of the events and no others. -/
  asked : ∀ seen, a.run e.recording ((m, seen), d) =
    (.ok t, ((s.1, seen ++ requests log), s.2))
  /-- Where what is there is skipped, it stays, and the emitter is not asked for it. -/
  kept : a.skipExisting = true →
    (∀ p bytes, d.node? p = some (.file bytes) → s.2.node? p = some (.file bytes)) ∧
    ∀ before event after j, log = before ++ event :: after → event.asked? = some j →
      ∃ u, Course a e (m, d₁) before u ∧ u.2.has j.path = false
  /-- Without a failure, a run that skips what is there does nothing afterwards, with any emitter. -/
  again : t.failed = [] → ∀ {τ : Type} (e' : Emitter τ) (m' : τ),
    { a with skipExisting := true }.run e' (m', s.2) =
      (.ok { skipped := (a.agenda d index).length }, (m', s.2))

section Accounts

variable {m : σ} {s : σ × Disk}

variable (he : ∀ req u, (e.emit req u).2.2 = u.2) (hc : Course a e (m, d₁) log s)

include he hc

theorem frame_of_course (hm : d.makeFolders a.out = .ok d₁) {p : Place}
    (hp : ∀ path ∈ (tally log).written, s.2.locate path ≠ .ok p) (bytes : Bytes) :
    s.2.node? p = some (.file bytes) ↔ d.node? p = some (.file bytes) := by
  have hfilled := hc.filled he
  have hnot : ¬ WrittenAt d₁ log p := by
    rintro ⟨j, code, hj, hl⟩
    exact hp j.path (mem_written_tally.2 ⟨j, code, hj, rfl⟩) (hfilled.toSameFolders.locate_of_ok hl)
  have hmade := extended_makeFolders hm
  rw [hfilled.kept p hnot]
  exact ⟨hmade.files p bytes, hmade.kept p (.file bytes)⟩

variable (hi : SourceIndex.build d a.sources = .ok index)
  (hagenda : log.map Event.item = a.agenda d index)

include hi hagenda

theorem held_of_course {path : Path} (hpath : path ∈ (tally log).written) :
    ∃ p j code, s.2.locate path = .ok p ∧ Last s.2 log p j code ∧
      s.2.node? p = some (.file (authoredBytes j.request.file code)) ∧
      ((∀ k, Item.job k ∈ a.agenda d index → '/' ∉ k.name.render) → j.path = path) := by
  obtain ⟨j, code, hj, rfl⟩ := mem_written_tally.1 hpath
  have hsame := (hc.filled he).toSameFolders
  -- a job that was written has a place, also at the end
  obtain ⟨p, hp⟩ : ∃ p, s.2.locate j.path = .ok p := by
    obtain ⟨p, n, hp, -⟩ := has_iff.1 (hc.has he (Or.inr ⟨code, hj⟩))
    exact ⟨p, hp⟩
  obtain ⟨k, c, hlast, hn⟩ := hc.last he ⟨j, code, hj, hsame.locate_iff.1 hp⟩
  have hlast := (Last.of_same hsame).2 hlast
  refine ⟨p, k, c, hp, hlast, hn, fun hslash => ?_⟩
  have hitem : ∀ {i x}, Event.written i x ∈ log → Item.job i ∈ a.agenda d index := fun hm =>
    hagenda ▸ List.mem_map_of_mem hm
  have hplain := allPlain_agenda (a := a) hi fun _ h => h
  have hk := hlast.mem
  obtain ⟨before, after, -, hkp, -⟩ := hlast
  obtain ⟨test, source, hjs, ht⟩ := hplain j (hitem hj)
  obtain ⟨test', source', hks, ht'⟩ := hplain k (hitem hk)
  rw [path_job hjs, path_job hks, render_of_same_place hks hjs ht' ht (hslash k (hitem hk))
    (hslash j (hitem hj)) hkp hp]

theorem again_of_course (hg : Grounded d) (hm : d.makeFolders a.out = .ok d₁)
    (hf : (tally log).failed = []) {τ : Type}
    (e' : Emitter τ) (m' : τ) : { a with skipExisting := true }.run e' (m', s.2) =
      (.ok { skipped := (a.agenda d index).length }, (m', s.2)) := by
  have hplain := allPlain_agenda (a := a) hi fun _ h => h
  have hsources : SameSources d s.2 :=
    (extended_makeFolders hm).sameSources.trans (hc.sameSources he (hagenda ▸ hplain))
  have hload : ∀ entry ∈ index, loadSource s.2 entry.2 = loadSource d entry.2 :=
    fun entry hentry => loadSource_same hg hi hentry hsources
  have hdone : ∀ {item}, item ∈ a.agenda d index → ∃ j, item = .job j ∧
      (Event.skipped j ∈ log ∨ ∃ code, Event.written j code ∈ log) :=
    fun hitem => done_of_no_failure hf (hagenda ▸ hitem)
  have hfolder : s.2.makeFolders a.out = .ok s.2 := by
    apply makeFolders_of_hasFolder
    refine (hasFolder_makeFolders hm).imp_right fun hfolder => ?_
    have hsame := (hc.filled he).toSameFolders
    obtain ⟨p, hp, hn⟩ := hasFolder_iff.1 hfolder
    exact hasFolder_iff.2 ⟨p, hsame.locate_of_ok hp, (hsame.folders p).2 hn⟩
  have hsame : a.agenda s.2 index = a.agenda d index := agenda_congr hload
  have husable : ∀ entry ∈ index, ∃ source, loadSource s.2 entry.2 = .ok source := by
    intro entry hentry
    rw [hload entry hentry]
    cases hl : loadSource d entry.2 with
    | ok source => exact ⟨source, rfl⟩
    | error x =>
      have hnote : Item.note entry x ∈ a.agenda d index := by
        refine List.mem_flatMap.2 ⟨entry, hentry, ?_⟩
        unfold items
        rw [hl]
        exact List.mem_singleton.2 rfl
      obtain ⟨j, hj, -⟩ := hdone hnote
      exact absurd hj (by simp)
  have hthere : ∀ j, Item.job j ∈ a.agenda s.2 index → s.2.has j.path = true := by
    intro j hj
    rw [hsame] at hj
    obtain ⟨k, hk, hevent⟩ := hdone hj
    obtain rfl := Item.job.inj hk
    exact hc.has he hevent
  rw [run_of_index (a := { a with skipExisting := true }) (s := (m', s.2))
    (SourceIndex.build_same hsources hi) hfolder]
  have hskip := runSources_skipped (a := { a with skipExisting := true }) (e := e') rfl
    (u := (m', s.2)) husable hthere {}
  rw [hskip, ← hsame, Nat.zero_add]
  rfl

end Accounts

end Baselines.Authoring
