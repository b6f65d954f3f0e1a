import Baselines.Proofs.Suite.Update

/-!
# Baselines that are updated again and again

An update reads a baseline, gives its code anew, and writes it back. A baseline that names a source
keeps the first name and nothing else, so what a row of updates leaves is what the last of them would
have left alone.
-/

namespace Baselines.Suite

open Text MarkedFile

/-! ## 1. Updates of bytes -/

/-- The bytes of a baseline after an update with some code, or the encoding that it fails to be
in. -/
def bless (b : Bytes) (code : Text) : Except Encoding Bytes :=
  (Encoding.read b).map fun t => renewed t code

/-- The bytes of a baseline after updates with codes, one after the other. -/
def blessAll (b : Bytes) (codes : List Text) : Except Encoding Bytes := codes.foldlM bless b

/-- The text that bytes hold names the source first. -/
structure Names (b : Bytes) (t file : Text) : Prop where
  read : Encoding.read b = .ok t
  primary : (parse t).primary? = some file

/-- What an update leaves in a baseline that names the source. -/
def namedText (file code : Text) : Text := (single file (dropLineEnds code)).render

theorem primary?_ofLines {l file : Text} (h : marker? l = some file) (r : List Text) :
    (ofLines (l :: r)).primary? = some file := by
  unfold ofLines primary?
  rw [blocks, h]
  rfl

/-- A baseline that an update left names the source that it named before. -/
theorem primary?_parse_namedText {file : Text} (h : Markable file) (code : Text) :
    (parse (namedText file code)).primary? = some file := by
  have hend : endsInReturn (dropLineEnds code) = false :=
    Comparison.endBlanks_lineEnds.not_endsInReturn code
  unfold namedText parse
  rw [dropMark_render_single, lines_render_single h hend]
  exact primary?_ofLines (marker?_markerLine h.nonempty h.bracket) _

theorem Names.of_renewed {file : Text} (h : Markable file) (code : Text) :
    Names (Encoding.utf8Encode (namedText file code)) (namedText file code) file := by
  refine ⟨?_, primary?_parse_namedText h code⟩
  rw [Encoding.read_utf8Encode, namedText, dropMark_render_single]

section Row

variable {b : Bytes} {t file : Text}

/-- An update depends only on the first source that the baseline names. -/
theorem Names.bless_eq (h : Names b t file) (code : Text) :
    bless b code = .ok (Encoding.utf8Encode (namedText file code)) := by
  have hr : renewed t code = Encoding.utf8Encode (namedText file code) := by
    unfold renewed withCode
    rw [h.primary]
    rfl
  rw [bless, h.read, ← hr]
  rfl

/-- Each update leaves a baseline with the name it had, so a row of them does. -/
theorem Names.blessAll (h : Names b t file) (codes : List Text) :
    ∃ b' t', blessAll b codes = .ok b' ∧ Names b' t' file := by
  -- induction on the updates; what the first leaves is where the others start
  induction codes generalizing b t with
  | nil => exact ⟨b, t, rfl, h⟩
  | cons code r ih =>
    have hnext := Names.of_renewed (markable_of_primary? h.primary) code
    obtain ⟨b', t', hr, hn⟩ := ih hnext
    refine ⟨b', t', ?_, hn⟩
    unfold Suite.blessAll at hr ⊢
    rw [List.foldlM_cons, h.bless_eq code]
    exact hr

theorem blessAll_append (b : Bytes) (codes more : List Text) :
    blessAll b (codes ++ more) = blessAll b codes >>= fun b' => blessAll b' more :=
  List.foldlM_append

/-- Only the last of the updates is seen afterwards. -/
theorem Names.blessAll_concat (h : Names b t file) (codes : List Text) (last : Text) :
    Suite.blessAll b (codes ++ [last]) = bless b last := by
  obtain ⟨b', t', hb, hn⟩ := h.blessAll codes
  rw [blessAll_append, hb, h.bless_eq last, ← hn.bless_eq last]
  exact bind_pure (bless b' last)

-- The request for a baseline depends on its contents only by the first name.
theorem request_congr (f : Fixture) {a c : MarkedFile} (h : a.primary? = c.primary?) :
    ({ f with file := a } : Fixture).request = ({ f with file := c } : Fixture).request := by
  unfold Fixture.request Fixture.requestFor
  rw [h]

end Row

/-! ## 2. Updates of a file -/

/-- Updates of the baseline at a path, one after the other, and the codes that they wrote: each loads
the baseline as the one before left it. -/
inductive Updates (path : Path) : Disk → List Text → Disk → Prop where
  | none (d : Disk) : Updates path d [] d
  | more {d d' : Disk} {index : Option SourceIndex} {fixture : Fixture} {code : Text}
      {codes : List Text} (suite : Suite) (hl : Fixture.load d index path = .ok fixture)
      (hv : (suite.judge fixture code d).1.status = .updated)
      (h : Updates path (suite.judge fixture code d).2 codes d') :
      Updates path d (code :: codes) d'

-- An update of a file is an update of its bytes.
theorem read_judge {d : Disk} {index : Option SourceIndex} {path : Path} {fixture : Fixture}
    {code : Text} {suite : Suite} {b : Bytes} (hr : d.read path = .ok b)
    (hl : Fixture.load d index path = .ok fixture)
    (hv : (suite.judge fixture code d).1.status = .updated) :
    ∃ b', bless b code = .ok b' ∧ (suite.judge fixture code d).2.read path = .ok b' := by
  obtain ⟨rfl, t, ht, hfile⟩ := Fixture.load_ok hl
  rcases suite.judge_cases fixture code d with ⟨-, hs, -⟩ | ⟨-, hs, -⟩ | ⟨-, -, -, hw⟩
  · rw [hs] at hv
    exact absurd hv (by decide)
  · rw [hs] at hv
    exact absurd hv (by decide)
  · obtain ⟨b₀, hb₀, hread⟩ := Disk.readText_eq_ok.1 ht
    obtain rfl := Except.ok.inj (hr.symm.trans hb₀)
    obtain ⟨p, hp, hrw, hn⟩ := Disk.rewritten_write hr hw
    refine ⟨blessed fixture code, ?_, Disk.read_eq_ok.2 ⟨p, (hrw.locate_eq _).trans hp, hn⟩⟩
    rw [bless, hread, blessed, hfile]
    rfl

/-- What updates of a file leave is what they make of its bytes. -/
theorem Updates.read {path : Path} {d d' : Disk} {codes : List Text} {b : Bytes}
    (h : Updates path d codes d') (hr : d.read path = .ok b) :
    ∃ b', blessAll b codes = .ok b' ∧ d'.read path = .ok b' := by
  induction h generalizing b with
  | none d => exact ⟨b, rfl, hr⟩
  | more suite hl hv _ ih =>
    obtain ⟨b₁, hb₁, hr₁⟩ := read_judge hr hl hv
    obtain ⟨b', hb', hr'⟩ := ih hr₁
    refine ⟨b', ?_, hr'⟩
    unfold blessAll at hb' ⊢
    rw [List.foldlM_cons, hb₁]
    exact hb'

/-! ## 3. Rows of updates -/

/-- For a baseline that names a source, a row of updates leaves what the last of them leaves alone; the
baseline names the same source after each, and the same request is made for it; the same update again
leaves the same bytes. The updates of a file on a disk are such a row. -/
theorem blessAll_of_names {b : Bytes} {t file : Text} (h : Names b t file) :
    (∀ codes last, blessAll b (codes ++ [last]) = bless b last) ∧
      (∀ codes, ∃ b' t', blessAll b codes = .ok b' ∧ Names b' t' file ∧
        ∀ f : Fixture, ({ f with file := parse t' } : Fixture).request =
          ({ f with file := parse t } : Fixture).request) ∧
      (∀ code b', bless b code = .ok b' → bless b' code = .ok b') ∧
      ∀ path d d' codes, d.read path = .ok b → Updates path d codes d' →
        ∃ b', blessAll b codes = .ok b' ∧ d'.read path = .ok b' := by
  refine ⟨h.blessAll_concat, fun codes => ?_, fun code b' hb => ?_, fun path d d' codes hr hu => ?_⟩
  · obtain ⟨b', t', hb, hn⟩ := h.blessAll codes
    exact ⟨b', t', hb, hn, fun f => request_congr f (hn.primary.trans h.primary.symm)⟩
  · obtain rfl := Except.ok.inj ((h.bless_eq code).symm.trans hb)
    exact (Names.of_renewed (markable_of_primary? h.primary) code).bless_eq code
  · exact hu.read hr

-- An output with a mark, a marker line and a return.
def oddOutput : Text := "\uFEFF//// [u.ts]\r\n//// [v.ts]\nx\r\r\n"

theorem blessAll_of_names_sole :
    let b := Encoding.utf8Encode "//// [t.ts]\nold\n".toList
    Names b "//// [t.ts]\nold\n" "t.ts" ∧
      blessAll b [oddOutput, "new", oddOutput] = bless b oddOutput := by
  intro b
  have h : Names b "//// [t.ts]\nold\n" "t.ts" := ⟨by decide +kernel, by decide⟩
  exact ⟨h, (blessAll_of_names h).1 [oddOutput, "new"] oddOutput⟩

end Baselines.Suite
