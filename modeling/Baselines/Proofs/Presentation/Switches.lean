import Baselines.Presentation
import Baselines.Proofs.Styled
import Baselines.Proofs.Text.Lines

/-!
# Colour in what is presented

Reports, comparisons and the outcome of authoring are coloured by switches of styles only: without the
switches the coloured text is the one without colour, provided that no text in it holds an escape
character.
-/

namespace Baselines

open Text

/-- Whether what is shown of a case holds no escape character. -/
structure Case.IsClear (c : Case) : Prop where
  path : '\x1b' ∉ c.path
  detail : ∀ d, c.detail = some d → '\x1b' ∉ d
  diff : ∀ d, c.diff = some d → '\x1b' ∉ d

namespace Presentation

open Styled

/-! ## 1. Parts of what is shown -/

/-- A number is written without an escape character. -/
theorem not_mem_ofNat (n : Nat) : '\x1b' ∉ Text.ofNat n := not_mem_digits (by decide) n

/-- The word of a status is clear of escape characters. -/
theorem isClear_status (s : Status) : IsClear (status s) := by
  cases s <;> exact isClear_styled.2 (by decide)

/-- A diff is shown clear of them where it is. -/
theorem isClear_diff {d : Text} (h : '\x1b' ∉ d) : IsClear (diff d) := by
  refine IsClear.join (isClear_plain.2 (by decide)) fun s hs => ?_
  obtain ⟨l, hl, rfl⟩ := List.mem_map.1 hs
  exact isClear_append.2 ⟨isClear_plain.2 (by decide),
    isClear_styled.2 fun hm => h (mem_of_mem_lines hl hm)⟩

/-- A case is shown clear of them where its path, its detail and its diff are. -/
theorem isClear_case {c : Case} (h : c.IsClear) : IsClear (case c) := by
  unfold case
  refine isClear_append.2 ⟨isClear_append.2 ⟨isClear_append.2 ⟨isClear_status _, ?_⟩, ?_⟩, ?_⟩
  · exact isClear_plain.2 (by simpa using h.path)
  · cases hd : c.detail with
    | none => exact isClear_nil
    | some d => exact isClear_plain.2 (by simpa using h.detail d hd)
  · cases hd : c.diff with
    | none => exact isClear_nil
    | some d =>
      dsimp only
      split
      · exact isClear_nil
      · exact isClear_append.2 ⟨isClear_plain.2 (by decide), isClear_diff (h.diff d hd)⟩

/-- The counts of a tally are numbers and fixed words. -/
theorem not_mem_counts (t : Tally) : '\x1b' ∉ Text.join ", " (counts t) := by
  intro hm
  rcases mem_of_mem_join hm with hm | ⟨u, hu, hm⟩
  · exact absurd hm (by decide)
  · unfold counts at hu
    rcases List.mem_cons.1 hu with rfl | hu
    · rcases List.mem_append.1 hm with hm | hm
      · exact not_mem_ofNat _ hm
      · exact absurd hm (by decide)
    · obtain ⟨p, hp, rfl⟩ := List.mem_map.1 hu
      have hlabel : '\x1b' ∉ p.2 := by
        have hp := (List.mem_filter.1 hp).1
        simp only [List.mem_cons, List.not_mem_nil, or_false] at hp
        rcases hp with rfl | rfl | rfl | rfl | rfl | rfl <;> dsimp only <;> decide
      rcases List.mem_append.1 hm with hm | hm
      · exact not_mem_ofNat _ hm
      · exact hlabel ((List.mem_cons.1 hm).resolve_left (by decide))

/-- A tally is clear of them, whatever is counted. -/
theorem isClear_tally (t : Tally) : IsClear (tally t) := by
  refine isClear_append.2 ⟨?_, isClear_plain.2 ?_⟩
  · unfold verdict
    split
    · exact isClear_styled.2 (by decide)
    · exact isClear_styled.2 (by decide)
  · have hsep : '\x1b' ∉ ": ".toList ∧ '\x1b' ∉ " baselines; ".toList := by decide
    simp only [List.mem_append, not_or]
    exact ⟨⟨⟨hsep.1, not_mem_ofNat _⟩, hsep.2⟩, not_mem_counts t⟩

/-! ## 2. What is shown -/

/-- A report is clear of them where its cases are. -/
theorem isClear_report (verbose : Bool) {r : Report} (h : ∀ c ∈ r.cases, c.IsClear) :
    IsClear (report verbose r) := by
  have hlines : IsClear ((shown verbose r.cases).flatMap fun c => case c ++ plain "\n") := by
    intro p hp
    obtain ⟨c, hc, hp⟩ := List.mem_flatMap.1 hp
    have hcase := isClear_case (h c (List.mem_of_mem_filter hc))
    exact isClear_append.2 ⟨hcase, isClear_plain.2 (by decide)⟩ p hp
  unfold report
  dsimp only
  refine isClear_append.2 ⟨?_, isClear_tally _⟩
  split
  · exact isClear_nil
  · exact isClear_append.2 ⟨hlines, isClear_plain.2 (by decide)⟩

/-- A comparison is clear of them where its diff is. -/
theorem isClear_comparison {c : Comparison} (h : ∀ m, c.mismatch = some m → '\x1b' ∉ m.diff) :
    IsClear (comparison c) := by
  have hhow : '\x1b' ∉ " (".toList ++ c.mode.label ++ " comparison)".toList := by
    cases c.mode <;> decide
  unfold comparison
  dsimp only
  cases hm : c.mismatch with
  | none =>
    refine isClear_styled.2 (List.mem_append.not.2 (not_or.2 ⟨by decide, hhow⟩))
  | some m =>
    refine isClear_append.2 ⟨isClear_append.2 ⟨isClear_styled.2 ?_, isClear_plain.2 (by decide)⟩,
      isClear_diff (h m hm)⟩
    have hplace : ∀ place : Text, '\x1b' ∉ place → '\x1b' ∉ "differs".toList ++ place ++
        (" (".toList ++ c.mode.label ++ " comparison)".toList) := by
      intro place hp
      rw [List.mem_append, List.mem_append, not_or, not_or]
      exact ⟨⟨by decide, hp⟩, hhow⟩
    apply hplace
    cases m.firstLine with
    | none => exact List.not_mem_nil
    | some n => exact List.mem_append.not.2 (not_or.2 ⟨by decide, not_mem_ofNat n⟩)

/-- The outcome of authoring is clear of them where the failures are. -/
theorem isClear_authored (written skipped : Nat) {failed : List (Text × Text)}
    (h : ∀ f ∈ failed, '\x1b' ∉ f.1 ∧ '\x1b' ∉ f.2) :
    IsClear (authored written skipped failed) := by
  refine isClear_append.2 ⟨fun p hp => ?_, isClear_plain.2 ?_⟩
  · obtain ⟨f, hf, hp⟩ := List.mem_flatMap.1 hp
    obtain ⟨hid, hsentence⟩ := h f hf
    refine isClear_append.2 ⟨isClear_styled.2 (by decide), isClear_plain.2 ?_⟩ p hp
    simp [hid, hsentence]
  · simp [not_mem_ofNat]

/-- Colour adds switches of styles and nothing else: where no text in them holds an escape character,
reports, comparisons and the outcome of authoring are written in colour as they are without, once the
switches are taken out. -/
theorem withoutSwitches_coloured :
    (∀ (verbose : Bool) (r : Report), (∀ c ∈ r.cases, c.IsClear) →
      withoutSwitches ((report verbose r).text true) = (report verbose r).text false) ∧
    (∀ c : Comparison, (∀ m, c.mismatch = some m → '\x1b' ∉ m.diff) →
      withoutSwitches ((comparison c).text true) = (comparison c).text false) ∧
    ∀ (written skipped : Nat) (failed : List (Text × Text)),
      (∀ f ∈ failed, '\x1b' ∉ f.1 ∧ '\x1b' ∉ f.2) →
        withoutSwitches ((authored written skipped failed).text true) =
          (authored written skipped failed).text false :=
  ⟨fun verbose _ h => withoutSwitches_painted (isClear_report verbose h),
    fun _ h => withoutSwitches_painted (isClear_comparison h),
    fun written skipped _ h => withoutSwitches_painted (isClear_authored written skipped h)⟩

/-- A report with a case that passed and one whose diff has three lines, a comparison with that diff,
and a source that could not be authored. -/
theorem withoutSwitches_coloured_mixed :
    let d : Text := "@@ -2 +2 @@\n-old\n+new"
    let cases : List Case :=
      [⟨"a", "a.normal.ts", .pass, none, none⟩,
        ⟨"b", "b.normal.ts", .mismatch, some "baseline differs", some d⟩]
    let r := Report.ofCases "fixtures" "cat" .exact cases
    let c : Comparison := ⟨.exact, "old", "new", some ⟨d, ⟨1, 1⟩, some 2⟩⟩
    let failed : List (Text × Text) := [("b", "the emitter failed")]
    ((∀ c ∈ r.cases, c.IsClear) ∧
      withoutSwitches ((report true r).text true) = (report true r).text false) ∧
    ((∀ m, c.mismatch = some m → '\x1b' ∉ m.diff) ∧
      withoutSwitches ((comparison c).text true) = (comparison c).text false) ∧
    (∀ f ∈ failed, '\x1b' ∉ f.1 ∧ '\x1b' ∉ f.2) ∧
      withoutSwitches ((authored 3 1 failed).text true) = (authored 3 1 failed).text false := by
  intro d cases r c failed
  have hd : '\x1b' ∉ d := by decide
  have hcases : ∀ c ∈ r.cases, c.IsClear := by
    intro c hc
    rcases List.mem_cons.1 hc with rfl | hc
    · exact ⟨by decide, nofun, nofun⟩
    · obtain rfl := List.mem_singleton.1 hc
      refine ⟨by decide, fun _ h => ?_, fun _ h => ?_⟩
      · obtain rfl := Option.some.inj h
        decide
      · obtain rfl := Option.some.inj h
        exact hd
  have hdiff : ∀ m, c.mismatch = some m → '\x1b' ∉ m.diff := by
    intro m h
    obtain rfl := Option.some.inj h
    exact hd
  have hfailed : ∀ f ∈ failed, '\x1b' ∉ f.1 ∧ '\x1b' ∉ f.2 := by decide
  exact ⟨⟨hcases, withoutSwitches_coloured.1 true r hcases⟩,
    ⟨hdiff, withoutSwitches_coloured.2.1 c hdiff⟩, hfailed,
    withoutSwitches_coloured.2.2 3 1 failed hfailed⟩

end Presentation

end Baselines
