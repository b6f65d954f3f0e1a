import Baselines.Proofs.Authoring.Folder

/-!
# The course of an authoring

What an authoring does, event by event: for each source in turn all of its jobs, or a note that it
cannot be used. The events tell the summary and the requests that the emitter has got.
-/

namespace Baselines

-- An emitter answers as it does while its requests are noted.
theorem Emitter.recording_emit {σ : Type} (e : Emitter σ) (req : Request) (u : σ × Disk)
    (seen : List Request) : e.recording.emit req ((u.1, seen), u.2) =
      ((e.emit req u).1, (((e.emit req u).2.1, seen ++ [req]), (e.emit req u).2.2)) := rfl

namespace Authoring

open Text Disk

variable {σ : Type} {a : Authoring} {e : Emitter σ} {d : Disk}

/-! ## 1. Events -/

/-- What there is to do: a job, or the note of a source that cannot be used. -/
inductive Item where
  | note (entry : Text × Path) (trouble : Trouble)
  | job (j : Job)

/-- What was done about an item. -/
inductive Event where
  | noted (entry : Text × Path) (trouble : Trouble)
  | skipped (j : Job)
  | failed (j : Job) (fault : EmitFault)
  | written (j : Job) (code : Text)

namespace Event

def item : Event → Item
  | noted entry trouble => .note entry trouble
  | skipped j | failed j _ | written j _ => .job j

/-- The job for which the emitter was asked. -/
def asked? : Event → Option Job
  | failed j _ | written j _ => some j
  | noted _ _ | skipped _ => none

/-- What an event adds to the summary. -/
def part : Event → Summary
  | noted entry trouble => { failed := [(entry.1, trouble.message)] }
  | skipped _ => { skipped := 1 }
  | failed j fault => { failed := [(j.name.id, fault.message)] }
  | written j _ => { written := [j.path] }

end Event

/-- The summary of events. -/
def tally (log : List Event) : Summary := Summary.joined (log.map Event.part)

/-- The requests that the emitter has got, in their order. -/
def requests (log : List Event) : List Request := (log.filterMap Event.asked?).map (·.request)

/-- What there is to do about an entry, whose source stands on a disk. -/
def items (a : Authoring) (d : Disk) (entry : Text × Path) : List Item :=
  match loadSource d entry.2 with
  | .ok source => (a.jobs entry.1 source).map .job
  | .error x => [.note entry x]

/-- What there is to do about all entries, in the order in which it is done. -/
def agenda (a : Authoring) (d : Disk) (index : List (Text × Path)) : List Item :=
  index.flatMap (a.items d)

/-- How much there is to do about an entry: a job for each configuration and stage of its source, or one
note. -/
def workload (a : Authoring) (d : Disk) (entry : Text × Path) : Nat :=
  match loadSource d entry.2 with
  | .ok source => source.directives.configurations.length * a.stages.length
  | .error _ => 1

/-- How an event comes about: what is there may be skipped, and the emitter is asked for the others,
whose code is written. -/
inductive Step (a : Authoring) (e : Emitter σ) (u : σ × Disk) : Event → σ × Disk → Prop
  | noted {entry : Text × Path} {x : Trouble} (h : loadSource u.2 entry.2 = .error x) :
      Step a e u (.noted entry x) u
  | skipped {j : Job} (hs : a.skipExisting = true ∧ u.2.has j.path = true) :
      Step a e u (.skipped j) u
  | failed {j : Job} {fault : EmitFault} {v : σ × Disk}
      (hs : ¬(a.skipExisting = true ∧ u.2.has j.path = true))
      (he : e.emit j.request u = (.error fault, v)) : Step a e u (.failed j fault) v
  | written {j : Job} {code : Text} {m : σ} {d d' : Disk}
      (hs : ¬(a.skipExisting = true ∧ u.2.has j.path = true))
      (he : e.emit j.request u = (.ok code, (m, d)))
      (hw : d.write j.path (authoredBytes j.request.file code) = .ok d') :
      Step a e u (.written j code) (m, d')

/-- Events one after the other, from the state before them to the state after them. -/
inductive Course (a : Authoring) (e : Emitter σ) : σ × Disk → List Event → σ × Disk → Prop
  | nil (u : σ × Disk) : Course a e u [] u
  | cons {u v w : σ × Disk} {event : Event} {log : List Event} (first : Step a e u event v)
      (rest : Course a e v log w) : Course a e u (event :: log) w

-- For what is there the emitter is not asked, where it is skipped.
theorem Step.not_has {u v : σ × Disk} {event : Event} {j : Job} (h : Step a e u event v)
    (hs : a.skipExisting = true) (hj : event.asked? = some j) : u.2.has j.path = false := by
  rw [← Bool.not_eq_true]
  intro hp
  cases h with
  | noted _ => exact absurd hj (by simp [Event.asked?])
  | skipped _ => exact absurd hj (by simp [Event.asked?])
  | failed hnot _ =>
    obtain rfl := Option.some.inj hj
    exact hnot ⟨hs, hp⟩
  | written hnot _ _ =>
    obtain rfl := Option.some.inj hj
    exact hnot ⟨hs, hp⟩

/-! ## 2. Summaries of events -/

theorem Summary.foldl_append (t : Summary) (parts : List Summary) :
    parts.foldl append t = t.append (joined parts) := by
  unfold joined
  induction parts generalizing t with
  | nil => rw [List.foldl_nil, List.foldl_nil, append_empty]
  | cons part r ih =>
    rw [List.foldl_cons, List.foldl_cons, ih, ih (append {} part), empty_append, append_assoc]

@[simp] theorem tally_nil : tally [] = {} := rfl

@[simp] theorem tally_cons (event : Event) (log : List Event) :
    tally (event :: log) = event.part.append (tally log) := by
  unfold tally Summary.joined
  rw [List.map_cons, List.foldl_cons, Summary.empty_append, Summary.foldl_append]
  rfl

theorem tally_append (log more : List Event) :
    tally (log ++ more) = (tally log).append (tally more) := by
  induction log with
  | nil => rw [List.nil_append, tally_nil, Summary.empty_append]
  | cons event r ih => rw [List.cons_append, tally_cons, tally_cons, ih, Summary.append_assoc]

theorem mem_written_tally {log : List Event} {path : Path} :
    path ∈ (tally log).written ↔ ∃ j code, Event.written j code ∈ log ∧ j.path = path := by
  induction log with
  | nil => simp
  | cons event r ih =>
    rw [tally_cons, Summary.append, List.mem_append, ih]
    cases event with
    | noted entry x => simp [Event.part]
    | skipped j => simp [Event.part]
    | failed j fault => simp [Event.part]
    | written j code =>
      constructor
      · rintro (h | ⟨k, c, hk, hp⟩)
        · exact ⟨j, code, List.mem_cons_self, (List.mem_singleton.1 h).symm⟩
        · exact ⟨k, c, List.mem_cons_of_mem _ hk, hp⟩
      · rintro ⟨k, c, hk, hp⟩
        rcases List.mem_cons.1 hk with hk | hk
        · obtain ⟨rfl, -⟩ := Event.written.inj hk
          exact Or.inl (List.mem_singleton.2 hp.symm)
        · exact Or.inr ⟨k, c, hk, hp⟩

/-- Every event is counted once. -/
theorem count_tally (log : List Event) :
    (tally log).written.length + (tally log).skipped + (tally log).failed.length = log.length := by
  induction log with
  | nil => rfl
  | cons event r ih =>
    rw [tally_cons]
    cases event <;> simp [Event.part, Summary.append] <;> omega

-- Without a failure every event is of a job that was skipped or written.
theorem skipped_or_written {log : List Event} (h : (tally log).failed = []) {event : Event}
    (he : event ∈ log) :
    ∃ j, event = .skipped j ∨ ∃ code, event = .written j code := by
  induction log with
  | nil => exact absurd he List.not_mem_nil
  | cons first r ih =>
    rw [tally_cons, Summary.append, List.append_eq_nil_iff] at h
    rcases List.mem_cons.1 he with rfl | he
    · cases event with
      | noted entry x => exact absurd h.1 (by simp [Event.part])
      | failed j fault => exact absurd h.1 (by simp [Event.part])
      | skipped j => exact ⟨j, Or.inl rfl⟩
      | written j code => exact ⟨j, Or.inr ⟨code, rfl⟩⟩
    · exact ih h.2 he

theorem length_agenda (a : Authoring) (d : Disk) (index : List (Text × Path)) :
    (a.agenda d index).length = (index.map (a.workload d)).sum := by
  have hentry : ∀ entry, (a.items d entry).length = a.workload d entry := by
    intro entry
    unfold items workload
    cases loadSource d entry.2 with
    | error x => rfl
    | ok source => simp [jobs, List.length_flatMap]
  rw [agenda, List.length_flatMap, List.map_congr_left fun entry _ => hentry entry]

/-! ## 3. Runs as courses -/

section Courses

variable {u v w : σ × Disk} {log more : List Event} {t t' : Summary}

theorem Course.append (h : Course a e u log v) (h' : Course a e v more w) :
    Course a e u (log ++ more) w := by
  induction h with
  | nil u => exact h'
  | cons first _ ih => exact .cons first (ih h')

theorem Course.split {before after : List Event} (h : Course a e u (before ++ after) w) :
    ∃ v, Course a e u before v ∧ Course a e v after w := by
  induction before generalizing u with
  | nil => exact ⟨u, .nil u, h⟩
  | cons event r ih =>
    cases h with
    | cons first rest =>
      obtain ⟨v, hv, hafter⟩ := ih rest
      exact ⟨v, .cons first hv, hafter⟩

-- A job is one event.
theorem runJob_iff {j : Job} : a.runJob e t j u = (.ok t', v) ↔
    ∃ event : Event, event.item = .job j ∧ Step a e u event v ∧ t' = t.append event.part := by
  constructor
  · intro h
    have hdoes := does_runJob a e t j u
    rw [h] at hdoes
    cases hdoes with
    | skipped hs => exact ⟨.skipped j, rfl, .skipped hs, by simp [Summary.append, Event.part]⟩
    | failed hs he =>
      exact ⟨.failed j _, rfl, .failed hs he, by simp [Summary.append, Event.part]⟩
    | written hs he hw =>
      exact ⟨.written j _, rfl, .written hs he hw, by simp [Summary.append, Event.part]⟩
  · rintro ⟨event, hitem, hstep, rfl⟩
    cases hstep with
    | noted h => exact absurd hitem (by simp [Event.item])
    | skipped hs =>
      obtain rfl := Item.job.inj hitem
      simpa [Summary.append, Event.part] using (Does.skipped (e := e) (t := t) hs).eq_runJob
    | failed hs he =>
      obtain rfl := Item.job.inj hitem
      simpa [Summary.append, Event.part] using (Does.failed (t := t) hs he).eq_runJob
    | written hs he hw =>
      obtain rfl := Item.job.inj hitem
      simpa [Summary.append, Event.part] using (Does.written (t := t) hs he hw).eq_runJob

theorem runJobs_iff {js : List Job} : a.runJobs e js t u = (.ok t', v) ↔
    ∃ log : List Event, log.map Event.item = js.map Item.job ∧ Course a e u log v ∧
      t' = t.append (tally log) := by
  induction js generalizing t u with
  | nil =>
    constructor
    · intro h
      obtain ⟨ht, rfl⟩ := Prod.mk.inj h
      exact ⟨[], rfl, .nil u, by rw [← Except.ok.inj ht, tally_nil, Summary.append_empty]⟩
    · rintro ⟨log, hitems, hcourse, rfl⟩
      obtain rfl := List.map_eq_nil_iff.1 hitems
      cases hcourse
      rw [tally_nil, Summary.append_empty]
      rfl
  | cons j r ih =>
    constructor
    · intro h
      obtain ⟨x, hx, -⟩ | ⟨t₁, u₁, hk, hr⟩ := runJobs_cons h
      · exact absurd hx (by simp)
      · obtain ⟨event, hitem, hstep, rfl⟩ := runJob_iff.1 hk
        obtain ⟨log, hitems, hcourse, rfl⟩ := ih.1 hr
        refine ⟨event :: log, ?_, .cons hstep hcourse, ?_⟩
        · rw [List.map_cons, List.map_cons, hitem, hitems]
        · rw [tally_cons, Summary.append_assoc]
    · rintro ⟨log, hitems, hcourse, rfl⟩
      obtain ⟨event, rest, rfl, hitem, hitems⟩ := List.map_eq_cons_iff.1 hitems
      cases hcourse with
      | cons first hrest =>
        have hone := (runJob_iff (t := t)).2 ⟨event, hitem, first, rfl⟩
        rw [runJobs, hone]
        exact ih.2 ⟨rest, hitems, hrest, by rw [tally_cons, Summary.append_assoc]⟩

theorem runSource_iff {entry : Text × Path} (hl : loadSource u.2 entry.2 = loadSource d entry.2) :
    a.runSource e t entry u = (.ok t', v) ↔
      ∃ log : List Event, log.map Event.item = a.items d entry ∧ Course a e u log v ∧
        t' = t.append (tally log) := by
  unfold runSource items
  rw [hl]
  cases hs : loadSource d entry.2 with
  | ok source => exact runJobs_iff
  | error x =>
    rw [hs] at hl
    constructor
    · intro h
      obtain ⟨ht, rfl⟩ := Prod.mk.inj h
      refine ⟨[.noted entry x], rfl, .cons (.noted hl) (.nil u), ?_⟩
      rw [← Except.ok.inj ht]
      simp [Event.part, Summary.append]
    · rintro ⟨log, hitems, hcourse, rfl⟩
      obtain ⟨event, rest, rfl, hitem, hrest⟩ := List.map_eq_cons_iff.1 hitems
      obtain rfl := List.map_eq_nil_iff.1 hrest
      cases hcourse with
      | cons first hnil =>
        cases hnil
        cases first with
        | noted h =>
          obtain ⟨rfl, rfl⟩ := Item.note.inj hitem
          simp [Event.part, Summary.append]
        | skipped _ => exact absurd hitem (by simp [Event.item])
        | failed _ _ => exact absurd hitem (by simp [Event.item])
        | written _ _ _ => exact absurd hitem (by simp [Event.item])

end Courses

/-! ## 4. Courses on a disk -/

section Quiet

variable {u v : σ × Disk} {log : List Event} {t t' : Summary} {index : SourceIndex}

-- An event changes the disk by the write of a baseline only.
theorem Step.disk (he : ∀ req u, (e.emit req u).2.2 = u.2) {event : Event}
    (h : Step a e u event v) :
    (v.2 = u.2 ∧ ∀ j code, event ≠ .written j code) ∨
      ∃ j code, event = .written j code ∧ ¬(a.skipExisting = true ∧ u.2.has j.path = true) ∧
        u.2.write j.path (authoredBytes j.request.file code) = .ok v.2 := by
  cases h with
  | noted _ => exact Or.inl ⟨rfl, by simp⟩
  | skipped _ => exact Or.inl ⟨rfl, by simp⟩
  | @failed j fault v _ hemit =>
    have hquiet := he j.request u
    rw [hemit] at hquiet
    exact Or.inl ⟨hquiet, by simp⟩
  | @written j code m k d' hs hemit hw =>
    have hquiet := he j.request u
    rw [hemit] at hquiet
    obtain rfl : k = u.2 := hquiet
    exact Or.inr ⟨j, code, rfl, hs, hw⟩

/-- The jobs of events are those of tests without a slash in their names. -/
def AllPlain (a : Authoring) (items : List Item) : Prop := ∀ j, Item.job j ∈ items → a.Plain j

theorem Step.sameSources (he : ∀ req u, (e.emit req u).2.2 = u.2) {event : Event}
    (hp : AllPlain a [event.item]) (h : Step a e u event v) : SameSources u.2 v.2 := by
  rcases h.disk he with ⟨hd, -⟩ | ⟨j, code, rfl, -, hw⟩
  · rw [hd]
    exact .refl u.2
  · obtain ⟨test, source, hj, ht⟩ := hp j (List.mem_singleton.2 rfl)
    exact sameSources_write hw fun p hl => isSource_job hj ht hl

theorem Course.sameSources (he : ∀ req u, (e.emit req u).2.2 = u.2)
    (hp : AllPlain a (log.map Event.item)) (h : Course a e u log v) : SameSources u.2 v.2 := by
  induction h with
  | nil u => exact .refl u.2
  | @cons u v w event log first _ ih =>
    rw [List.map_cons] at hp
    have hfirst := first.sameSources he fun j hj =>
      hp j (List.mem_singleton.1 hj ▸ List.mem_cons_self)
    exact hfirst.trans (ih fun j hj => hp j (List.mem_cons_of_mem _ hj))

theorem mem_items {entry : Text × Path} {j : Job} :
    Item.job j ∈ a.items d entry ↔ j ∈ a.jobsOf d entry := by
  unfold items jobsOf
  cases loadSource d entry.2 with
  | error x => simp
  | ok source => simp

theorem mem_agenda {rest : List (Text × Path)} {j : Job} :
    Item.job j ∈ a.agenda d rest ↔ ∃ entry ∈ rest, j ∈ a.jobsOf d entry := by
  simp only [agenda, List.mem_flatMap, mem_items]

theorem allPlain_agenda (hi : SourceIndex.build d a.sources = .ok index)
    {rest : List (Text × Path)} (hrest : ∀ entry ∈ rest, entry ∈ index) :
    AllPlain a (a.agenda d rest) := by
  intro j hj
  obtain ⟨entry, hentry, hj⟩ := mem_agenda.1 hj
  obtain ⟨source, -, hj⟩ := mem_jobsOf hj
  exact ⟨entry.1, source, hj, SourceIndex.slash_not_mem hi (hrest entry hentry)⟩

theorem allPlain_items (hi : SourceIndex.build d a.sources = .ok index) {entry : Text × Path}
    (hentry : entry ∈ index) : AllPlain a (a.items d entry) := by
  have hone : ∀ x ∈ [entry], x ∈ index := by simpa using hentry
  simpa [agenda] using allPlain_agenda (a := a) hi hone

/-- A run through sources ends well exactly by a course through what there is to do about them. The
sources stay what they are, so that is known from the start. -/
theorem runSources_iff (he : ∀ req u, (e.emit req u).2.2 = u.2) (hg : Grounded d)
    (hi : SourceIndex.build d a.sources = .ok index) {rest : List (Text × Path)}
    (hrest : ∀ entry ∈ rest, entry ∈ index) (hu : SameSources d u.2) :
    a.runSources e rest t u = (.ok t', v) ↔
      ∃ log : List Event, log.map Event.item = a.agenda d rest ∧ Course a e u log v ∧
        t' = t.append (tally log) := by
  induction rest generalizing t u with
  | nil =>
    constructor
    · intro h
      obtain ⟨ht, rfl⟩ := Prod.mk.inj h
      exact ⟨[], rfl, .nil u, by rw [← Except.ok.inj ht, tally_nil, Summary.append_empty]⟩
    · rintro ⟨log, hitems, hcourse, rfl⟩
      obtain rfl := List.map_eq_nil_iff.1 hitems
      cases hcourse
      rw [tally_nil, Summary.append_empty]
      rfl
  | cons entry rest ih =>
    have hentry := hrest entry List.mem_cons_self
    have hrest := fun x hx => hrest x (List.mem_cons_of_mem entry hx)
    have hload := loadSource_same hg hi hentry hu
    have hplain := allPlain_items hi hentry
    constructor
    · intro h
      obtain ⟨x, hx, -⟩ | ⟨t₁, u₁, hk, hr⟩ := runSources_cons h
      · exact absurd hx (by simp)
      · obtain ⟨log, hitems, hcourse, rfl⟩ := (runSource_iff hload).1 hk
        have hu₁ := hu.trans (hcourse.sameSources he (hitems ▸ hplain))
        obtain ⟨more, hmore, hthen, rfl⟩ := (ih hrest hu₁).1 hr
        refine ⟨log ++ more, ?_, hcourse.append hthen, ?_⟩
        · rw [List.map_append, hitems, hmore]
          rfl
        · rw [tally_append, Summary.append_assoc]
    · rintro ⟨log, hitems, hcourse, rfl⟩
      obtain ⟨log, more, rfl, hfirst, hmore⟩ := List.map_eq_append_iff.1 hitems
      obtain ⟨u₁, hcourse, hthen⟩ := hcourse.split
      have hu₁ := hu.trans (hcourse.sameSources he (hfirst ▸ hplain))
      have hone := (runSource_iff (t := t) hload).2 ⟨log, hfirst, hcourse, rfl⟩
      rw [runSources, hone]
      refine (ih hrest hu₁).2 ⟨more, hmore, hthen, ?_⟩
      rw [tally_append, Summary.append_assoc]

/-- A run ends well exactly by a course through what there is to do about the sources, from the disk
with the folder for the baselines. -/
theorem run_iff (he : ∀ req u, (e.emit req u).2.2 = u.2) (hg : Grounded d)
    (hi : SourceIndex.build d a.sources = .ok index) {d₁ : Disk}
    (hm : d.makeFolders a.out = .ok d₁) {m : σ} :
    a.run e (m, d) = (.ok t', v) ↔
      ∃ log : List Event, log.map Event.item = a.agenda d index ∧ Course a e (m, d₁) log v ∧
        t' = tally log := by
  have hstart : SameSources d ((m, d₁) : σ × Disk).2 := (extended_makeFolders hm).sameSources
  rw [run_of_index (s := (m, d)) hi hm, runSources_iff he hg hi (fun _ h => h) hstart]
  simp only [Summary.empty_append]

end Quiet

/-! ## 5. What the emitter is asked -/

section Recording

variable {u v : σ × Disk} {log : List Event}

theorem Step.recording {event : Event} (h : Step a e u event v) (seen : List Request) :
    Step a e.recording ((u.1, seen), u.2) event ((v.1, seen ++ requests [event]), v.2) := by
  have hemit : ∀ {req answer v'}, e.emit req u = (answer, v') →
      e.recording.emit req ((u.1, seen), u.2) = (answer, ((v'.1, seen ++ [req]), v'.2)) := by
    intro req answer v' hv
    rw [Emitter.recording_emit, hv]
  cases h with
  | @noted entry x hl =>
    have hnone : seen ++ requests [.noted entry x] = seen := List.append_nil seen
    rw [hnone]
    exact .noted hl
  | @skipped j hs =>
    have hnone : seen ++ requests [.skipped j] = seen := List.append_nil seen
    rw [hnone]
    exact .skipped hs
  | failed hs he => exact .failed hs (hemit he)
  | @written j code m d d' hs he hw =>
    have hasked := hemit he
    exact .written hs hasked hw

theorem Course.recording (h : Course a e u log v) (seen : List Request) :
    Course a e.recording ((u.1, seen), u.2) log ((v.1, seen ++ requests log), v.2) := by
  induction h generalizing seen with
  | nil u => simpa [requests] using Course.nil ((u.1, seen), u.2)
  | @cons u v w event log first _ ih =>
    have hmore : requests (event :: log) = requests [event] ++ requests log := by
      unfold requests
      rw [← List.singleton_append, List.filterMap_append, List.map_append]
    rw [hmore, ← List.append_assoc]
    exact .cons (first.recording seen) (ih _)

end Recording

end Authoring

end Baselines
