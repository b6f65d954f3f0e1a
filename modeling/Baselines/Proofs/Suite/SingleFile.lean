import Baselines.Proofs.Comparison.Rereading
import Baselines.Proofs.Suite.Run

/-!
# Suites and single files

A suite compares an output with the code of a baseline, and a single file is compared with the whole
text of one. The code is that text without one byte order mark, without markers, and without one
return at the end of each line; the comparison drops the same once more. So both find the same
exactly when the code has nothing of the kind left.
-/

namespace Baselines

open Text MarkedFile

namespace Comparison

/-! ## 1. Code that is normalized again -/

theorem weight_rowsOf_le (ps : List Text) : weight (rowsOf ps) ≤ weight ps := by
  induction ps using List.reverseRecOn with
  | nil => exact Nat.le_refl 0
  | append_singleton front l _ =>
    rw [rowsOf_append front (List.cons_ne_nil l []), weight_append, weight_append, rowsOf]
    have := weight_map_dropReturn_le front
    omega

-- Pieces lose nothing as rows only if none before the last ends in a return.
theorem endsInReturn_of_weight_rowsOf {ps : List Text} (h : weight (rowsOf ps) = weight ps) :
    ∀ l ∈ ps.dropLast, endsInReturn l = false := by
  induction ps using List.reverseRecOn with
  | nil => exact fun l hl => absurd hl List.not_mem_nil
  | append_singleton front l _ =>
    rw [rowsOf_append front (List.cons_ne_nil l []), weight_append, weight_append, rowsOf] at h
    rw [List.dropLast_concat]
    exact endsInReturn_of_weight (by omega)

theorem rowsOf_of_not {ps : List Text} (h : ∀ l ∈ ps.dropLast, endsInReturn l = false) :
    rowsOf ps = ps := by
  induction ps using List.reverseRecOn with
  | nil => rfl
  | append_singleton front l _ =>
    rw [List.dropLast_concat] at h
    rw [rowsOf_append front (List.cons_ne_nil l []), map_dropReturn_of_not h, rowsOf]

/-- Code that reading it as the text of a file leaves as it is: no byte order mark stands before it,
and no line before the last ends in a return. -/
structure Lasting (code : Text) : Prop where
  mark : hasMark code = false
  returns : ∀ l ∈ (splitOn '\n' code).dropLast, endsInReturn l = false

instance (code : Text) : Decidable (Lasting code) :=
  decidable_of_iff
    (hasMark code = false ∧ ∀ l ∈ (splitOn '\n' code).dropLast, endsInReturn l = false)
    ⟨fun h => ⟨h.1, h.2⟩, fun h => ⟨h.mark, h.returns⟩⟩

theorem lasting_unlines {l : Text} {r : List Text} (hls : ∀ k ∈ l :: r, '\n' ∉ k) :
    Lasting (unlines (l :: r)) ↔
      hasMark l = false ∧ ∀ k ∈ (l :: r).dropLast, endsInReturn k = false := by
  have hpieces : splitOn '\n' (unlines (l :: r)) = l :: r :=
    splitOn_join (List.cons_ne_nil l r) hls
  have hmark := hasMark_unlines_cons l r
  constructor
  · rintro ⟨hm, hr⟩
    rw [hpieces] at hr
    exact ⟨hmark ▸ hm, hr⟩
  · rintro ⟨hm, hr⟩
    exact ⟨hmark.trans hm, by rwa [hpieces]⟩

/-- Lines of code are normalized to themselves exactly when nothing is lost in reading them. -/
theorem normalLines_unlines_codeLines (ls : List Text) (hls : ∀ l ∈ codeLines ls, '\n' ∉ l) :
    normalLines (unlines (codeLines ls)) = dropEmptyEnd (codeLines ls) ↔
      Lasting (unlines (codeLines ls)) := by
  have hcode := codeLines_codeLines ls
  generalize codeLines ls = cs at hls hcode
  cases cs with
  | nil => exact iff_of_true rfl (by decide)
  | cons l r =>
    have hmark : ∀ k ∈ dropMarkLine (l :: r), '\n' ∉ k := by
      intro k hk
      obtain ⟨x, hx, rfl | rfl⟩ := mem_dropMarkLine hk
      · exact hls k hx
      · exact fun hn => hls _ hx (List.mem_cons_of_mem _ hn)
    have hnormal : normalLines (unlines (l :: r)) =
        dropEmptyEnd (codeLines (rowsOf (dropMarkLine (l :: r)))) := by
      unfold normalLines
      rw [dropMark_unlines, rows_unlines (by simp [dropMarkLine]) hmark]
    rw [hnormal, lasting_unlines hls]
    constructor
    · intro h
      -- each step of the reading can only lose characters, so no step does
      have hw := congrArg weight h
      rw [weight_dropEmptyEnd, weight_dropEmptyEnd] at hw
      have h1 := weight_codeLines_le (rowsOf (dropMarkLine (l :: r)))
      have h2 := weight_rowsOf_le (dropMarkLine (l :: r))
      have hl : hasMark l = false := by
        by_contra hn
        have hlen := length_dropMark (eq_true_of_ne_false hn)
        have h3 : weight (dropMarkLine (l :: r)) = (dropMark l).length + weight r := weight_cons _ r
        rw [weight_cons] at hw
        omega
      rw [dropMarkLine, dropMark_of_not hl] at hw h1 h2
      exact ⟨hl, endsInReturn_of_weight_rowsOf (by omega)⟩
    · rintro ⟨hl, hr⟩
      rw [dropMarkLine, dropMark_of_not hl, rowsOf_of_not hr, hcode]

/-- Normalizing the code of a text gives the normal form of the text exactly when the code lasts. -/
theorem normalize_code_iff (t : Text) :
    normalize (parse t).code = normalize t ↔ Lasting (parse t).code := by
  rw [normalize_eq_iff, normalLines_eq t, code_parse]
  apply normalLines_unlines_codeLines
  exact fun l hl => not_mem_codeLines (fun _ hx => not_mem_lines hx) hl

/-- Comparing the code of a text finds what comparing the text finds, for every output and in both
modes, exactly when the code lasts. -/
theorem isMatch_code_iff (t : Text) :
    (∀ actual mode, (compare (parse t).code actual mode).isMatch = (compare t actual mode).isMatch) ↔
      Lasting (parse t).code := by
  rw [← normalize_code_iff]
  constructor
  · intro h
    -- the text itself is an output that it matches
    rw [← isMatch_exact, h t .exact, isMatch_exact]
  · intro h actual mode
    rw [isMatch_compare, isMatch_compare, h]

end Comparison

/-! ## 2. Baselines and outputs in files -/

theorem Comparison.ofFiles_ok {d : Disk} {fixture actual : Path} {t code : Text}
    (ht : d.readText fixture = .ok t) (hc : d.readText actual = .ok code) (mode : Mode) :
    Comparison.ofFiles d fixture actual mode = .ok (compare t code mode) := by
  unfold Comparison.ofFiles
  rw [ht, hc]
  rfl

namespace Suite

open Comparison

/-- Whether a suite passes a baseline on an output exactly when the files of both match, whatever the
output is and however strictly it is compared. -/
def AgreesWithFiles (d : Disk) (fixture : Fixture) : Prop :=
  ∀ (suite : Suite) (actual : Path) (code : Text), d.readText actual = .ok code →
    ∃ c, ofFiles d fixture.path actual suite.mode = .ok c ∧
      ((suite.judge fixture code d).1.status = .pass ↔ c.isMatch = true)

/-- Comparing the code of a text finds what comparing the text finds exactly when the code lasts; and
a suite agrees with the comparison of files on a baseline that holds the text exactly then. -/
theorem agreesWithFiles_iff_lasting (t : Text) :
    ((∀ actual mode,
        (compare (parse t).code actual mode).isMatch = (compare t actual mode).isMatch) ↔
      Lasting (parse t).code) ∧
    ∀ d index path fixture, d.readText path = .ok t → Fixture.load d index path = .ok fixture →
      (AgreesWithFiles d fixture ↔ Lasting (parse t).code) := by
  refine ⟨isMatch_code_iff t, fun d index path fixture ht h => ?_⟩
  obtain ⟨rfl, t', ht', hfile⟩ := Fixture.load_ok h
  obtain rfl := Except.ok.inj (ht.symm.trans ht')
  have hexp : fixture.expected = (parse t).code := by
    unfold Fixture.expected
    rw [hfile]
  constructor
  · intro hagree
    -- the baseline is itself the file of an output
    obtain ⟨c, hc, hiff⟩ := hagree { root := fixture.path } fixture.path t ht
    obtain rfl := Except.ok.inj ((ofFiles_ok ht ht .exact).symm.trans hc)
    rw [judge_pass_iff, hexp, isMatch_exact, isMatch_exact] at hiff
    exact (normalize_code_iff t).1 (hiff.2 rfl)
  · intro hl suite actual code hactual
    refine ⟨_, ofFiles_ok ht hactual suite.mode, ?_⟩
    rw [judge_pass_iff, hexp, (isMatch_code_iff t).2 hl]

theorem agreesWithFiles_iff_lasting_sole :
    soleDisk.readText "/b/t.js" = .ok "//// [t.ts]\nold\n".toList ∧
      ∃ fixture, Fixture.load soleDisk none "/b/t.js" = .ok fixture ∧
        AgreesWithFiles soleDisk fixture := by
  have ht : soleDisk.readText "/b/t.js" = .ok "//// [t.ts]\nold\n".toList := by
    decide +kernel
  have hl : Lasting (parse "//// [t.ts]\nold\n".toList).code := by
    decide +kernel
  obtain ⟨fixture, hf⟩ : ∃ fixture, Fixture.load soleDisk none "/b/t.js" = .ok fixture := by
    have hloads : (Fixture.load soleDisk none "/b/t.js").toOption.isSome = true := by
      decide +kernel
    cases h : Fixture.load soleDisk none "/b/t.js" with
    | error trouble =>
      rw [h] at hloads
      exact absurd hloads (by simp [Except.toOption])
    | ok fixture => exact ⟨fixture, rfl⟩
  exact ⟨ht, fixture, hf, ((agreesWithFiles_iff_lasting _).2 _ _ _ _ ht hf).2 hl⟩

/-! ## 3. A baseline that does not last -/

-- The first line keeps a return when it is read for the first time.
def returnText : Text := "a\r\r\nb\n"

-- A baseline with that text, its source, and an output with that text.
def returnDisk : Disk where
  nodes :=
    [(["b".toList], .folder),
      (["b".toList, "t.js".toList], .file (Encoding.utf8Encode returnText)),
      (["b".toList, "t.ts".toList], .file (Encoding.utf8Encode "x".toList)),
      (["out.js".toList], .file (Encoding.utf8Encode returnText))]
  distinct := by decide
  named := by decide

/-- The files match, and a suite reports a mismatch for the same output. -/
theorem judge_return :
    let e := Emitter.ofFunction [] fun _ => .ok returnText
    (soleSuite.verdict e none "/b/t.js" ((), returnDisk)).1.status = .mismatch ∧
      (ofFiles returnDisk "/b/t.js" "/out.js" soleSuite.mode).toOption.map isMatch = some true ∧
      (compare (parse returnText).code returnText .exact).isMatch ≠
        (compare returnText returnText .exact).isMatch := by
  decide +kernel

end Suite

end Baselines
