import Baselines.Report

/-!
# What the counts of a report say

The counts of the seven statuses make up the number of all cases, and those that count failures the
number of cases that failed.
-/

namespace Baselines

namespace Status

theorem isFailure_eq_false_iff {s : Status} : s.isFailure = false ↔ s = .pass ∨ s = .updated := by
  cases s <;> decide

end Status

namespace Tally

variable {cases : List Case}

theorem count_cons (c : Case) (cases : List Case) (s : Status) :
    count (c :: cases) s = count cases s + if c.status = s then 1 else 0 := by
  unfold count
  rw [List.countP_cons]
  simp only [decide_eq_true_eq]

/-- The counts of different statuses make up the number of cases that have one of them. -/
theorem sum_count {statuses : List Status} (h : statuses.Nodup) (cases : List Case) :
    statuses.foldr (count cases · + ·) 0 = cases.countP fun c => statuses.contains c.status := by
  induction statuses with
  | nil => simp
  | cons s statuses ih =>
    obtain ⟨hs, h⟩ := List.nodup_cons.1 h
    rw [List.foldr_cons, ih h]
    clear ih
    induction cases with
    | nil => rfl
    | cons c cases ih =>
      rw [count_cons, List.countP_cons, List.countP_cons, ← ih]
      by_cases hc : c.status = s
      · simp [hc, hs]
        omega
      · by_cases hm : c.status ∈ statuses
        · simp [hc, hm]
          omega
        · simp [hc, hm]

/-- The seven counts add up to the number of all cases. -/
theorem sum_counts (cases : List Case) :
    (ofCases cases).passed + (ofCases cases).mismatched + (ofCases cases).missingSource +
      (ofCases cases).emitFailed + (ofCases cases).nondeterministic + (ofCases cases).invalid +
      (ofCases cases).updated = cases.length := by
  have h : Status.all.foldr (count cases · + ·) 0 = _ := sum_count (by decide) cases
  have hall : (cases.countP fun c => Status.all.contains c.status) = cases.length := by
    rw [List.countP_eq_length]
    intro c _
    cases c.status <;> decide
  rw [hall] at h
  simp only [Status.all, List.foldr_cons, List.foldr_nil] at h
  simp only [ofCases]
  omega

/-- The counts of failures add up to the number of cases that failed. -/
theorem failures_ofCases (cases : List Case) :
    (ofCases cases).failures = (cases.filter (·.status.isFailure)).length := by
  have h : (Status.all.filter Status.isFailure).foldr (count cases · + ·) 0 = _ :=
    sum_count (by decide) cases
  have hfailed : (cases.countP fun c => (Status.all.filter Status.isFailure).contains c.status) =
      cases.countP (·.status.isFailure) := by
    congr 1
    funext c
    cases c.status <;> decide
  rw [hfailed, List.countP_eq_length_filter] at h
  rw [← h]
  show _ = count cases .mismatch + (count cases .missingSource + (count cases .emitFailed +
    (count cases .nondeterministic + (count cases .invalidFixture + 0))))
  simp only [failures, ofCases]
  omega

/-- A run failed unless every case passed or was updated. -/
theorem hasFailures_ofCases : (ofCases cases).hasFailures = false ↔
    ∀ c ∈ cases, c.status = .pass ∨ c.status = .updated := by
  unfold hasFailures
  rw [decide_eq_false_iff_not, Nat.not_lt, Nat.le_zero, failures_ofCases, List.length_eq_zero_iff,
    List.filter_eq_nil_iff]
  simp only [Bool.not_eq_true, Status.isFailure_eq_false_iff]

end Tally

end Baselines
