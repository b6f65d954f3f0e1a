import Baselines.Console
import Baselines.Proofs.Report
import Baselines.Proofs.Suite.Run

/-!
# What a check tells

A check that gets a report shows the cases that did not just pass, and a verdict on the run below
them. The verdict, the code of the run and the counts all say the same about the cases.
-/

namespace Baselines

namespace Styled

variable (colour : Bool)

theorem text_append (s s' : Styled) : (s ++ s').text colour = s.text colour ++ s'.text colour := by
  cases colour <;> exact List.flatMap_append

theorem text_flatMap {α : Type} (f : α → Styled) (xs : List α) :
    text colour (xs.flatMap f) = xs.flatMap fun x => (f x).text colour := by
  cases colour <;> exact List.flatMap_assoc

theorem text_plain (t : Text) : (plain t).text colour = t := by
  cases colour
  · exact List.append_nil t
  · show Style.plain.paint t ++ [] = t
    rw [List.append_nil]
    exact if_pos rfl

end Styled

open Styled

/-! ## 1. What a report shows -/

namespace Presentation

/-- What the text of a case begins with: the word for its status, in a column and in its style, and
its path. -/
def heading (colour : Bool) (c : Case) : Text :=
  (Styled.styled (style c.status) (padded 8 (word c.status))).text colour ++ ' ' :: c.path

theorem text_case (colour : Bool) (c : Case) :
    ∃ more, (case c).text colour = heading colour c ++ more := by
  unfold case
  rw [text_append, text_append, text_append, text_plain, List.append_assoc]
  exact ⟨_, rfl⟩

theorem word_injective {s s' : Status} (h : word s = word s') : s = s' := by
  cases s <;> cases s' <;> first | rfl | exact absurd h (by decide)

/-- The cases that stand in the text of a report above its counts, with an empty line below them. -/
def listing (colour : Bool) (cases : List Case) : Text :=
  let feed : Text := "\n"
  if cases = [] then [] else (cases.flatMap fun c => (case c).text colour ++ feed) ++ feed

theorem text_report (colour verbose : Bool) (r : Report) : (report verbose r).text colour =
    listing colour (shown verbose r.cases) ++ (tally r.tally).text colour := by
  have hlines : ((shown verbose r.cases).flatMap fun c => case c ++ plain "\n") = [] ↔
      shown verbose r.cases = [] := by
    rw [List.flatMap_eq_nil_iff]
    constructor
    · intro h
      refine List.eq_nil_iff_forall_not_mem.2 fun c hc => ?_
      exact absurd (h c hc) (by simp [plain])
    · intro h
      simp [h]
  unfold report listing
  rw [text_append]
  by_cases h : shown verbose r.cases = []
  · rw [if_pos (hlines.2 h), if_pos h]
    cases colour <;> rfl
  · rw [if_neg (mt hlines.1 h), if_neg h, text_append, text_flatMap]
    simp only [text_append, text_plain]

theorem text_tally (colour : Bool) (t : Tally) : (tally t).text colour = (verdict t).text colour ++
    (": " ++ Text.ofNat t.total ++ " baselines; " ++ Text.join ", " (counts t)) := by
  unfold tally
  rw [text_append, text_plain]

theorem bare_verdict (t : Tally) : (verdict t).bare = "ok" ↔ t.hasFailures = false := by
  unfold verdict
  cases t.hasFailures <;> decide

end Presentation

/-! ## 2. Checks that get a report -/

/-- A report of a suite counts its cases. -/
theorem Suite.tally_run {σ : Type} {suite : Suite} {e : Emitter σ} {s s' : σ × Disk} {r : Report}
    (h : suite.run e s = (.ok r, s')) : r.tally = Tally.ofCases r.cases := by
  unfold Suite.run at h
  split at h
  · exact absurd (Prod.mk.inj h).1 (by simp)
  · obtain rfl := Except.ok.inj (Prod.mk.inj h).1
    rfl

namespace Console

open Arguments (Check)

variable {σ : Type}

section Emitters

variable (emitterOf : Command → Emitter σ)

/-- A check gets a report, and leaves a memory and a disk, if it can be prepared, if its suite can be
run, and if the report can be written where it is asked for. -/
def Gets (a : Check) (updateAsked : Bool) (s : σ × Disk) (r : Report) (s' : σ × Disk) : Prop :=
  ∃ suite command d, prepared a updateAsked s.2 = .ok (suite, command) ∧
    suite.run (emitterOf command) s = (.ok r, (s'.1, d)) ∧ writeReport r a.json d = .ok s'.2

variable {emitterOf} {a : Check} {updateAsked : Bool} {s s' : σ × Disk}

theorem check_of_gets {r : Report} (h : Gets emitterOf a updateAsked s r s') (colour : Bool) :
    check emitterOf a colour updateAsked s = (.done (codeFor r.tally.hasFailures)
      ((Presentation.report a.verbose r).text colour ++ "\n"), s') := by
  obtain ⟨suite, command, d, hp, hr, hw⟩ := h
  unfold check
  rw [hp]
  dsimp only
  rw [hr]
  dsimp only
  rw [hw]

/-- A check that gets no report is given up. -/
theorem check_of_not_gets (h : ¬ ∃ r s', Gets emitterOf a updateAsked s r s') (colour : Bool) :
    ∃ c, (check emitterOf a colour updateAsked s).1 = .failed c := by
  unfold check
  split
  · exact ⟨_, rfl⟩
  · rename_i suite command hp
    split
    · exact ⟨_, rfl⟩
    · rename_i r memory d hr
      split
      · exact ⟨_, rfl⟩
      · rename_i d' hw
        exact absurd ⟨r, (memory, d'), suite, command, d, hp, hr, hw⟩ h

theorem Gets.hasFailures {r : Report} (h : Gets emitterOf a updateAsked s r s') :
    r.tally.hasFailures = false ↔ ∀ c ∈ r.cases, c.status = .pass ∨ c.status = .updated := by
  obtain ⟨suite, command, d, -, hr, -⟩ := h
  rw [Suite.tally_run hr]
  exact Tally.hasFailures_ofCases

end Emitters

theorem codeFor_eq_zero (failed : Bool) : codeFor failed = 0 ↔ failed = false := by
  cases failed <;> decide

/-- The counts of cases make up the number of all of them, and those of failures the number of cases
that failed. Whatever emitters commands stand for, a check that gets a report ends with the code zero,
says that all is well and counts no failures, each of them exactly if every case passed or was
updated; and unless it is to show everything, it shows the other cases than those that passed, one
after the other, each with the word for its status and its path first. A check that gets none shows
nothing, and ends with another code. -/
theorem check_reports_cases (emitterOf : Command → Emitter σ) :
    (∀ cases : List Case,
      let t := Tally.ofCases cases
      t.passed + t.mismatched + t.missingSource + t.emitFailed + t.nondeterministic + t.invalid +
          t.updated = t.total ∧
        t.total = cases.length ∧
        ∀ root emitter mode,
          t.failures = (Report.ofCases root emitter mode cases).failures.length) ∧
    (∀ (a : Check) (colour updateAsked : Bool) (s : σ × Disk),
      (∀ r s', Gets emitterOf a updateAsked s r s' → ∃ code output body,
        let good := ∀ c ∈ r.cases, c.status = .pass ∨ c.status = .updated
        check emitterOf a colour updateAsked s = (.done code output, s') ∧
        (code = 0 ↔ good) ∧
        ((Presentation.verdict r.tally).bare = "ok" ↔ good) ∧
        (r.tally.hasFailures = false ↔ good) ∧
        output = body ++ ((Presentation.verdict r.tally).text colour ++
          (": " ++ Text.ofNat r.tally.total ++ " baselines; " ++
            Text.join ", " (Presentation.counts r.tally))) ++ "\n" ∧
        (a.verbose = false →
          body = Presentation.listing colour (r.cases.filter (·.status ≠ .pass)))) ∧
      ((¬ ∃ r s', Gets emitterOf a updateAsked s r s') →
        (check emitterOf a colour updateAsked s).1.exitCode = 2 ∧
          (check emitterOf a colour updateAsked s).1.output = [])) ∧
    (∀ colour c, ∃ more,
      (Presentation.case c).text colour = Presentation.heading colour c ++ more) ∧
    ∀ st st', Presentation.word st = Presentation.word st' → st = st' := by
  refine ⟨fun cases => ⟨Tally.sum_counts cases, rfl, fun _ _ _ => Tally.failures_ofCases cases⟩,
    fun a colour updateAsked s => ⟨fun r s' h => ?_, fun h => ?_⟩, Presentation.text_case,
    fun _ _ => Presentation.word_injective⟩
  · refine ⟨_, _, Presentation.listing colour (Presentation.shown a.verbose r.cases),
      check_of_gets h colour, ?_, ?_, h.hasFailures, ?_, fun hv => ?_⟩
    · rw [codeFor_eq_zero]
      exact h.hasFailures
    · rw [Presentation.bare_verdict]
      exact h.hasFailures
    · rw [Presentation.text_report, Presentation.text_tally]
    · unfold Presentation.shown
      simp only [hv, Bool.false_or]
  · obtain ⟨c, hc⟩ := check_of_not_gets h colour
    rw [hc]
    exact ⟨rfl, rfl⟩

/-! ## 3. Checks of one baseline -/

open Suite (soleDisk soleSuite soleFound)

-- A check of one baseline gets a report of its case.
theorem gets_of_runAll {e : Command → Emitter σ} {a : Check} {suite : Suite}
    {command : Command} {c : Case} {memory memory' : σ}
    (hp : prepared a false soleDisk = .ok (suite, command)) (hj : a.json = none)
    (hscope : suite.scope soleDisk = .ok (none, [soleFound]))
    (hcase : suite.runAll (e command) none [soleFound] (memory, soleDisk) =
      ([c], (memory', soleDisk))) :
    Gets e a false (memory, soleDisk)
      (Report.ofCases suite.root (e command).name suite.mode [c]) (memory', soleDisk) := by
  refine ⟨suite, command, soleDisk, hp, ?_, by rw [hj]; rfl⟩
  rw [Suite.run_of_scope (s := (memory, soleDisk)) hscope, hcase]
  unfold Suite.reportOf
  rw [List.mergeSort_singleton]

/-- A check of a baseline whose code is not what its emitter answers. -/
def soleCheck : Check := { fixtures := some "/b", emitter := ["cat", "{input}"] }

def soleCase : Case where
  id := "t"
  path := "t.js"
  status := .mismatch
  detail := some "output differs from baseline at line 1 (+1 -1)"
  diff := some "--- expected\n+++ actual\n@@ -1 +1 @@\n-old\n+new\n"

def soleReport : Report := Report.ofCases "/b" "cat" .exact [soleCase]

theorem gets_sole :
    Gets Command.emitter soleCheck false ((), soleDisk) soleReport ((), soleDisk) := by
  have hprepared : prepared soleCheck false soleDisk = .ok (soleSuite, ⟨"cat", ["{input}"]⟩) := rfl
  have hscope := Suite.scope_of_baselines soleSuite (d := soleDisk) rfl Suite.soleSuite_baselines
  have hcase : soleSuite.runAll (Command.emitter ⟨"cat", ["{input}"]⟩) none [soleFound]
      ((), soleDisk) = ([soleCase], ((), soleDisk)) := by
    decide +kernel
  exact gets_of_runAll hprepared rfl hscope hcase

-- A check without a folder of baselines is given up.
theorem not_gets_bare : ¬ ∃ r s', Gets Command.emitter {} false ((), soleDisk) r s' := by
  rintro ⟨r, s', suite, command, d, hp, -⟩
  have hprepared : prepared {} false soleDisk = .error .noFixtures := rfl
  rw [hprepared] at hp
  exact absurd hp nofun

/-- An emitter that counts what it was asked, and so never gives one code twice. -/
def counting : Emitter Nat where
  name := "count"
  emit := fun _ (n, d) => (.ok (Text.ofNat n), (n + 1, d))

/-- A check that asks twice for the code of a baseline. -/
def twiceCheck : Check := { fixtures := some "/b", emitter := ["count"], runs := some 2 }

def twiceCase : Case where
  id := "t"
  path := "t.js"
  status := .nondeterministic
  detail := some "run 2 produced different output than run 1"
  diff := some "--- expected\n+++ actual\n@@ -1 +1 @@\n-0\n+1\n"

def twiceReport : Report := Report.ofCases "/b" "count" .exact [twiceCase]

theorem gets_twice :
    Gets (fun _ => counting) twiceCheck false (0, soleDisk) twiceReport (2, soleDisk) := by
  have hprepared : prepared twiceCheck false soleDisk =
      .ok ({ soleSuite with runs := 2 }, ⟨"count", []⟩) := rfl
  have hscope := Suite.scope_of_baselines { soleSuite with runs := 2 } (d := soleDisk) rfl
    Suite.soleSuite_baselines
  have hcase : ({ soleSuite with runs := 2 } : Suite).runAll counting none [soleFound]
      (0, soleDisk) = ([twiceCase], (2, soleDisk)) := by
    decide +kernel
  exact gets_of_runAll (e := fun _ => counting) hprepared rfl hscope hcase

/-- A mismatch, a baseline whose emitter is not to be relied on, and a check that is given up. -/
theorem check_reports_cases_sole :
    (Gets Command.emitter soleCheck false ((), soleDisk) soleReport ((), soleDisk) ∧
      ∃ code output,
        check Command.emitter soleCheck true false ((), soleDisk) =
          (.done code output, ((), soleDisk)) ∧
        code ≠ 0 ∧ (Presentation.verdict soleReport.tally).bare ≠ "ok" ∧
        output = Presentation.listing true [soleCase] ++
          ((Presentation.verdict soleReport.tally).text true ++
            ": 1 baselines; 0 passed, 1 mismatched\n")) ∧
      (Gets (fun _ => counting) twiceCheck false (0, soleDisk) twiceReport (2, soleDisk) ∧
        ∃ code output,
          check (fun _ => counting) twiceCheck false false (0, soleDisk) =
            (.done code output, (2, soleDisk)) ∧
          code ≠ 0 ∧ (Presentation.verdict twiceReport.tally).bare ≠ "ok" ∧
          output = Presentation.listing false [twiceCase] ++
            "FAILED: 1 baselines; 0 passed, 1 nondeterministic\n") ∧
      (¬ ∃ r s', Gets Command.emitter {} false ((), soleDisk) r s') ∧
        (check Command.emitter {} true false ((), soleDisk)).1.exitCode = 2 := by
  have hbad : ¬ ∀ c ∈ soleReport.cases, c.status = .pass ∨ c.status = .updated := by decide
  have hbad' : ¬ ∀ c ∈ twiceReport.cases, c.status = .pass ∨ c.status = .updated := by decide
  obtain ⟨code, output, body, hcheck, hcode, hverdict, -, houtput, hbody⟩ :=
    ((check_reports_cases Command.emitter).2.1 soleCheck true false ((), soleDisk)).1
      soleReport ((), soleDisk) gets_sole
  obtain ⟨code', output', body', hcheck', hcode', hverdict', -, houtput', hbody'⟩ :=
    ((check_reports_cases fun _ => counting).2.1 twiceCheck false false (0, soleDisk)).1
      twiceReport (2, soleDisk) gets_twice
  obtain ⟨hgivenUp, -⟩ :=
    ((check_reports_cases Command.emitter).2.1 {} true false ((), soleDisk)).2 not_gets_bare
  refine ⟨⟨gets_sole, code, output, hcheck, mt hcode.1 hbad, mt hverdict.1 hbad, ?_⟩,
    ⟨gets_twice, code', output', hcheck', mt hcode'.1 hbad', mt hverdict'.1 hbad', ?_⟩,
    not_gets_bare, hgivenUp⟩
  · rw [houtput, hbody rfl]
    decide +kernel
  · rw [houtput', hbody' rfl]
    decide +kernel

end Console

end Baselines
