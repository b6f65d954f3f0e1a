import Baselines.Proofs.Name.Render
import Mathlib.Data.Nat.Digits.Defs

/-!
# The names that are read as they were written

Which names come back from their own file names: exactly those whose parts can be told apart where
they stand, with nothing at the end of the test that reads as a variant or a stage that the name
does not have.
-/

namespace Baselines.Name

open Text

/-! ## 1. Pieces that say nothing -/

/-- Whether the last piece of a text, after its last dot, says nothing to a reader. -/
def Silent {α : Type} (read : Text → Option α) (t : Text) : Prop :=
  ∀ front piece, splitLast? '.' t = some (front, piece) → read piece = none

/-- What an optional part of a name adds to what stands before it. -/
def dotted {α : Type} (write : α → Text) : Option α → Text
  | some a => '.' :: write a
  | none => []

section Peel

variable {α : Type} {read : Text → Option α} {write : α → Text} {front t : Text}

/-- Where the last piece says nothing, nothing is taken off. -/
theorem peel_of_silent (h : Silent read t) : peel read t = (t, none) := by
  unfold peel
  cases hs : splitLast? '.' t with
  | none => rfl
  | some p => simp only [h p.1 p.2 hs]

theorem silent_of_peel (h : peel read t = (front, none)) : front = t ∧ Silent read t := by
  rcases peel_eq h with ⟨-, rfl⟩ | ⟨piece, -, -, -, hn⟩
  · refine ⟨rfl, fun f piece hs => ?_⟩
    cases hr : read piece with
    | none => rfl
    | some a =>
      unfold peel at h
      simp [hs, hr] at h
  · exact absurd rfl hn

/-- A part is taken off as it was added, and where none was added nothing is taken off exactly when
the text before says nothing. -/
theorem peel_dotted {a : Option α} (hw : ∀ b, a = some b → read (write b) = some b ∧ '.' ∉ write b)
    {front' : Text} : peel read (front ++ dotted write a) = (front', a) ↔
      front' = front ∧ (a = none → Silent read front) := by
  cases a with
  | some b =>
    obtain ⟨hr, hd⟩ := hw b rfl
    rw [dotted, peel_piece hd hr, Prod.mk.injEq, eq_comm]
    simp
  | none =>
    rw [dotted, List.append_nil]
    constructor
    · intro h
      obtain ⟨he, hs⟩ := silent_of_peel h
      exact ⟨he, fun _ => hs⟩
    · rintro ⟨rfl, hs⟩
      exact peel_of_silent (hs rfl)

-- A reader that refuses a character hears nothing where it stands behind every dot.
theorem silent_of_last {c : Char} (hr : ∀ piece, c ∈ piece → read piece = none) (hc : c ≠ '.')
    (t : Text) : Silent read (t ++ [c]) := by
  intro f piece hs
  obtain ⟨he, -⟩ := splitLast?_eq_some hs
  apply hr
  cases piece using List.reverseRecOn with
  | nil => exact absurd (List.append_inj' he rfl).2 (by simp [hc])
  | append_singleton p x =>
    rw [← List.cons_append, ← List.append_assoc] at he
    obtain rfl := List.singleton_inj.1 (List.append_inj' he rfl).2
    simp

theorem silent_dotted {a : α} {β : Type} {read' : Text → Option β} (ha : '.' ∉ write a)
    (hr : read' (write a) = none) : Silent read' (front ++ dotted write (some a)) := by
  intro f piece hs
  rw [dotted, splitLast?_append front ha, Option.some.injEq, Prod.mk.injEq] at hs
  rw [← hs.2]
  exact hr

end Peel

/-! ## 2. Variants and stages -/

/-- A number is read of digits, and of nothing else. -/
theorem number?_eq_some {t : Text} {n : Nat} : number? t = some n ↔
    t ≠ [] ∧ (∀ c ∈ t, c.isDigit = true) ∧ Nat.ofDigitChars 10 t 0 = n := by
  have hfold : t.foldl (fun n c => 10 * n + digitValue c) 0 = Nat.ofDigitChars 10 t 0 := by
    rw [Nat.ofDigitChars_eq_foldl]
    rfl
  rw [← List.all_eq_true]
  unfold number?
  split
  · rename_i h
    rw [hfold, Option.some.injEq]
    simp [h.1, h.2]
  · rename_i h
    simp only [reduceCtorEq, false_iff]
    exact fun hn => h ⟨hn.1, hn.2.1⟩

/-- A number that was written is read again. -/
theorem number?_ofNat (n : Nat) : number? (Text.ofNat n) = some n :=
  number?_eq_some.2 ⟨Nat.toDigits_ne_nil,
    fun _ hc => Nat.isDigit_of_mem_toDigits (by omega) (by omega) hc, Nat.ofDigitChars_ten_toDigits⟩

/-- A piece says a variant when it is made of digits and the number is small enough. -/
theorem variant?_eq_some {piece : Text} {v : Nat} : variant? piece = some v ↔
    piece ≠ [] ∧ (∀ c ∈ piece, c.isDigit = true) ∧ Nat.ofDigitChars 10 piece 0 = v ∧
      v < variantBound := by
  unfold variant?
  rw [Option.filter_eq_some_iff, number?_eq_some, decide_eq_true_eq, and_assoc, and_assoc]

theorem variant?_eq_none {piece : Text} : variant? piece = none ↔
    ¬(piece ≠ [] ∧ (∀ c ∈ piece, c.isDigit = true) ∧
      Nat.ofDigitChars 10 piece 0 < variantBound) := by
  rw [Option.eq_none_iff_forall_ne_some]
  constructor
  · rintro h ⟨hne, hd, hb⟩
    exact h _ (variant?_eq_some.2 ⟨hne, hd, rfl, hb⟩)
  · intro h v hv
    obtain ⟨hne, hd, rfl, hb⟩ := variant?_eq_some.1 hv
    exact h ⟨hne, hd, hb⟩

/-- A variant below the bound is read again. -/
theorem variant?_ofNat_of_lt {v : Nat} (h : v < variantBound) :
    variant? (Text.ofNat v) = some v := by
  unfold variant?
  rw [number?_ofNat, Option.filter_some, if_pos (by simpa using h)]

theorem variant?_of_mem {c : Char} (hc : c.isDigit = false) {piece : Text} (h : c ∈ piece) :
    variant? piece = none := by
  rw [variant?_eq_none]
  rintro ⟨-, hd, -⟩
  rw [hd c h] at hc
  exact absurd hc (by decide)

/-- A piece says a stage when it is its label, but for blanks around it and the case of its
letters. -/
theorem stage?_eq_some {piece : Text} {s : Stage} :
    stage? piece = some s ↔ lowerAscii (trim piece) = s.label := by
  unfold stage? Stage.parse
  constructor
  · intro h
    cases hl : Stage.ofLabel? (lowerAscii (trim piece)) with
    | none => simp [hl, Except.toOption] at h
    | some s' =>
      obtain rfl : s' = s := by simpa [hl, Except.toOption] using h
      have hlabel := List.find?_some hl
      rw [decide_eq_true_eq] at hlabel
      exact hlabel.symm
  · intro h
    rw [h]
    cases s <;> decide +kernel

-- A stage is read from the letters of its label and blanks.
theorem mem_of_stage? {piece : Text} {s : Stage} (h : stage? piece = some s) {c : Char}
    (hc : c ∈ piece) : isBlank c = true ∨ c.toLower ∈ s.label := by
  cases hb : isBlank c with
  | true => exact Or.inl rfl
  | false =>
    right
    rw [← stage?_eq_some.1 h]
    exact List.mem_map_of_mem (mem_trim hc hb)

theorem letter_of_mem_label {s : Stage} {c : Char} (h : c ∈ s.label) : 97 ≤ c.toNat := by
  have hall : (Stage.normal.label ++ Stage.minified.label).all fun c => 97 ≤ c.toNat := by decide
  have hm : c ∈ Stage.normal.label ++ Stage.minified.label := by
    cases s with
    | normal => exact List.mem_append_left _ h
    | minified => exact List.mem_append_right _ h
  exact of_decide_eq_true (List.all_eq_true.1 hall c hm)

theorem stage?_of_mem {c : Char} (hb : isBlank c = false) (hl : c.toLower.toNat < 97)
    {piece : Text} (h : c ∈ piece) : stage? piece = none := by
  cases hs : stage? piece with
  | none => rfl
  | some s =>
    rcases mem_of_stage? hs h with hc | hc
    · rw [hb] at hc
      exact absurd hc (by decide)
    · have := letter_of_mem_label hc
      omega

/-- A piece with a digit names no stage. -/
theorem stage?_of_digit {c : Char} (hd : c.isDigit = true) {piece : Text} (h : c ∈ piece) :
    stage? piece = none := by
  obtain ⟨h1, h2⟩ : 48 ≤ c.toNat ∧ c.toNat ≤ 57 := Char.isDigit_iff_toNat.1 hd
  have hall : ∀ n < 58, 48 ≤ n → isBlank (Char.ofNat n) = false ∧
      (Char.ofNat n).toLower.toNat < 97 := by
    decide
  obtain ⟨hb, hl⟩ := hall c.toNat (by omega) h1
  rw [Char.ofNat_toNat] at hb hl
  exact stage?_of_mem hb hl h

/-! ## 3. Options -/

variable {o : Text × Text} {os : List (Text × Text)} {name : Text}

-- What was read as an option stood between two commas.
theorem mem_readOptions {raws : List Text} (h : readOptions name raws = .ok os) (ho : o ∈ os) :
    ∃ raw ∈ raws, ∃ key value, trim raw = key ++ '=' :: value ∧ '=' ∉ key ∧
      o = (trim key, trim value) := by
  rw [readOptions_eq_ok] at h
  induction h with
  | nil => exact absurd ho List.not_mem_nil
  | blank _ _ ih =>
    obtain ⟨raw, hraw, rest⟩ := ih ho
    exact ⟨raw, List.mem_cons_of_mem _ hraw, rest⟩
  | item hraw hkey _ ih =>
    rcases List.mem_cons.1 ho with rfl | ho
    · exact ⟨_, List.mem_cons_self, _, _, hraw, hkey, rfl⟩
    · obtain ⟨raw, hraw, rest⟩ := ih ho
      exact ⟨raw, List.mem_cons_of_mem _ hraw, rest⟩

/-- What is read as options is legible. -/
theorem legible_of_readOptions {inner : Text} (h : readOptions name (splitOn ',' inner) = .ok os)
    (ho : o ∈ os) : Legible o := by
  obtain ⟨raw, hraw, key, value, he, hn, rfl⟩ := mem_readOptions h ho
  have hcomma : ∀ {t : Text}, (∀ c ∈ t, c ∈ trim raw) → ',' ∉ trim t := fun ht hm =>
    not_mem_of_mem_splitOn hraw (mem_of_mem_trim (ht _ (mem_of_mem_trim hm)))
  refine ⟨trim_trim key, trim_trim value, fun hm => hn (mem_of_mem_trim hm), hcomma ?_, hcomma ?_⟩
  · intro c hc
    rw [he]
    exact List.mem_append_left _ hc
  · intro c hc
    rw [he]
    exact List.mem_append_right key (List.mem_cons_of_mem _ hc)

/-- Whether an option keeps its place in a name: it is legible, and no parenthesis stands in it. -/
structure Enclosed (o : Text × Text) : Prop where
  legible : Legible o
  key : ∀ c ∈ ['(', ')'], c ∉ o.1
  value : ∀ c ∈ ['(', ')'], c ∉ o.2

/-- A parenthesis stands in written options exactly if it stands in one of them. -/
theorem not_mem_written {c : Char} (hc : c ∈ ['(', ')']) :
    c ∉ join [','] (os.map writeOption) ↔ ∀ o ∈ os, c ∉ o.1 ∧ c ∉ o.2 := by
  have hne : c ≠ ',' ∧ c ≠ '=' := by
    rcases List.mem_pair.1 hc with rfl | rfl <;> decide
  constructor
  · intro h o ho
    have hw : c ∉ writeOption o := fun hm => h (mem_join (List.mem_map_of_mem ho) hm)
    rw [writeOption, List.mem_append, List.mem_cons, not_or, not_or] at hw
    exact ⟨hw.1, hw.2.2⟩
  · intro h hm
    rcases mem_of_mem_join hm with hm | ⟨t, ht, hm⟩
    · exact hne.1 (List.mem_singleton.1 hm)
    · obtain ⟨o, ho, rfl⟩ := List.mem_map.1 ht
      rw [writeOption, List.mem_append, List.mem_cons] at hm
      rcases hm with hm | hm | hm
      · exact (h o ho).1 hm
      · exact hne.2 hm
      · exact (h o ho).2 hm

/-! ## 4. Stems -/

variable {n : Name}

theorem stem_of_nil (h : n.options = []) : n.stem = n.test := by
  rw [stem, if_pos h, List.append_nil]

theorem stem_of_ne_nil (h : n.options ≠ []) :
    n.stem = n.test ++ '(' :: (join [','] (n.options.map writeOption) ++ [')']) := by
  rw [stem, if_neg h, List.cons_append]

/-- A stem is taken apart as it was written exactly when its parentheses are those of the options,
and every option keeps its place between them. -/
theorem splitStem_stem : splitStem name n.stem = .ok (n.test, n.options) ↔
    '(' ∉ n.test ∧ (n.options = [] → ')' ∉ n.test) ∧ ∀ o ∈ n.options, Enclosed o := by
  by_cases hn : n.options = []
  · rw [stem_of_nil hn, hn]
    constructor
    · intro h
      rcases splitStem_ok h with ⟨-, -, ho, hc⟩ | ⟨inner, he, -⟩
      · exact ⟨ho, fun _ => hc, by simp⟩
      · simpa using congrArg List.length he
    · rintro ⟨ho, hc, -⟩
      rw [splitStem, splitFirst?_eq_none.2 ho]
      exact if_neg (hc rfl)
  · rw [stem_of_ne_nil hn, splitStem_parentheses]
    constructor
    · rintro ⟨-, ho, hio, hic, hr⟩
      refine ⟨ho, fun h => absurd h hn, fun o hm => ⟨legible_of_readOptions hr hm, ?_, ?_⟩⟩
      · rintro c hc
        rcases List.mem_pair.1 hc with rfl | rfl
        · exact ((not_mem_written hc).1 hio o hm).1
        · exact ((not_mem_written hc).1 hic o hm).1
      · rintro c hc
        rcases List.mem_pair.1 hc with rfl | rfl
        · exact ((not_mem_written hc).1 hio o hm).2
        · exact ((not_mem_written hc).1 hic o hm).2
    · rintro ⟨ho, -, he⟩
      have hl : ∀ o ∈ n.options, Legible o := fun o hm => (he o hm).legible
      have hp : ∀ c ∈ ['(', ')'], c ∉ join [','] (n.options.map writeOption) := fun c hc =>
        (not_mem_written hc).2 fun o hm => ⟨(he o hm).key c hc, (he o hm).value c hc⟩
      refine ⟨rfl, ho, hp '(' (by decide), hp ')' (by decide), ?_⟩
      rw [splitOn_written hn hl, readOptions_written hl]

-- Behind options, and behind what no reader accepts, nothing is taken off.
theorem silent_stem {α : Type} {read : Text → Option α}
    (hr : ∀ piece, ')' ∈ piece → read piece = none) :
    Silent read n.stem ↔ (n.options = [] → Silent read n.test) := by
  by_cases hn : n.options = []
  · rw [stem_of_nil hn]
    exact ⟨fun h _ => h, fun h => h hn⟩
  · rw [stem_of_ne_nil hn, ← List.cons_append, ← List.append_assoc]
    exact iff_of_true (silent_of_last hr (by decide) _) fun h => absurd h hn

/-- Only a bare test can be mistaken for one with a stage. -/
theorem silent_stage : Silent stage? (n.stem ++ dotted Text.ofNat n.variant) ↔
    (n.options = [] → n.variant = none → Silent stage? n.test) := by
  cases hv : n.variant with
  | none =>
    rw [dotted, List.append_nil, silent_stem fun _ => stage?_of_mem (by decide) (by decide)]
    exact ⟨fun h ho _ => h ho, fun h ho => h ho rfl⟩
  | some v =>
    refine iff_of_true (silent_dotted (not_mem_ofNat v) ?_) (by simp)
    obtain ⟨c, hc⟩ := List.exists_mem_of_ne_nil _ (Nat.toDigits_ne_nil (n := v) (b := 10))
    have hd : c.isDigit = true := Nat.isDigit_of_mem_toDigits (by omega) (by omega) hc
    exact stage?_of_digit hd hc

/-! ## 5. Names -/

theorem render_stem (n : Name) : n.render =
    ((n.stem ++ dotted Text.ofNat n.variant) ++ dotted Stage.label n.stage) ++ '.' :: n.extension := by
  unfold render id stem
  cases n.variant <;> cases n.stage <;> simp [dotted]

/-- Whether nothing in the parts of a name can be taken for something else where it is written. -/
structure Distinct (n : Name) : Prop where
  extension : n.extension ∈ extensions
  test : n.test ≠ []
  opening : '(' ∉ n.test
  closing : n.options = [] → ')' ∉ n.test
  options : ∀ o ∈ n.options, Enclosed o
  /-- The end of the test reads as no variant. -/
  variant : n.options = [] → n.variant = none → ∀ front piece,
    splitLast? '.' n.test = some (front, piece) →
      ¬(piece ≠ [] ∧ (∀ c ∈ piece, c.isDigit = true) ∧
        Nat.ofDigitChars 10 piece 0 < variantBound)
  /-- The end of the test reads as no stage. -/
  stage : n.options = [] → n.variant = none → n.stage = none → ∀ front piece,
    splitLast? '.' n.test = some (front, piece) → stage? piece = none

/-- A printed name is cut at its extension. -/
theorem splitLast?_render (he : n.extension ∈ extensions) : splitLast? '.' n.render =
    some ((n.stem ++ dotted Text.ofNat n.variant) ++ dotted Stage.label n.stage, n.extension) := by
  rw [render_stem, splitLast?_append _ (not_mem_extension he)]

/-- A name whose variant is in bounds is read from its file name as it was written exactly when its
parts are distinct there. -/
theorem parse_render_iff (n : Name) (hv : ∀ v, n.variant = some v → v < variantBound) :
    parse n.render = .ok n ↔ Distinct n := by
  have hstage : ∀ {stem staged}, stem = n.stem ++ dotted Text.ofNat n.variant →
      (peel stage? (stem ++ dotted Stage.label n.stage) = (staged, n.stage) ↔ staged = stem ∧
        (n.stage = none → n.options = [] → n.variant = none → Silent stage? n.test)) := by
    rintro stem staged rfl
    rw [peel_dotted fun s _ => ⟨stage?_label s, not_mem_label s⟩, silent_stage]
  have hvariant : ∀ {varied}, peel variant? (n.stem ++ dotted Text.ofNat n.variant) =
      (varied, n.variant) ↔ varied = n.stem ∧
        (n.variant = none → n.options = [] → Silent variant? n.test) := by
    intro varied
    rw [peel_dotted fun v h => ⟨variant?_ofNat_of_lt (hv v h), not_mem_ofNat v⟩,
      silent_stem fun _ => variant?_of_mem (by decide)]
  rw [parse_eq_ok]
  constructor
  · rintro ⟨stem, staged, varied, hlast, he, hs, hva, hsplit, hne⟩
    rw [splitLast?_render he, Option.some.injEq, Prod.mk.injEq] at hlast
    rw [← hlast.1] at hs
    obtain ⟨rfl, hstaged⟩ := (hstage rfl).1 hs
    obtain ⟨rfl, hvaried⟩ := hvariant.1 hva
    obtain ⟨ho, hc, hos⟩ := splitStem_stem.1 hsplit
    exact ⟨he, hne, ho, hc, hos,
      fun hno hnv f p hp => variant?_eq_none.1 (hvaried hnv hno f p hp),
      fun hno hnv hns f p hp => hstaged hns hno hnv f p hp⟩
  · intro h
    refine ⟨_, _, _, splitLast?_render h.extension, h.extension,
      (hstage rfl).2 ⟨rfl, fun hns hno hnv => h.stage hno hnv hns⟩,
      hvariant.2 ⟨rfl, fun hnv hno f p hp => variant?_eq_none.2 (h.variant hno hnv f p hp)⟩,
      splitStem_stem.2 ⟨h.opening, h.closing, h.options⟩, h.test⟩

/-! ## 6. Two names that end alike -/

-- The dot and the closing parenthesis in the test do no harm before options.
def guardedName : Name where
  test := "a).7"
  options := [("k", "v=1.5")]
  variant := none
  stage := none
  extension := "js"

-- Without options the end of the test is taken for a variant.
def exposedName : Name where
  test := "a.7"
  options := []
  variant := none
  stage := none
  extension := "js"

/-- A name with a guarded end is read again; one whose test could be taken for a variant is not. -/
theorem parse_render_iff_guarded :
    (∀ v, guardedName.variant = some v → v < variantBound) ∧
      parse guardedName.render = .ok guardedName ∧ Distinct guardedName ∧
      (∀ v, exposedName.variant = some v → v < variantBound) ∧
      parse exposedName.render ≠ .ok exposedName ∧ ¬Distinct exposedName := by
  have hg : ∀ v, guardedName.variant = some v → v < variantBound := by simp [guardedName]
  have he : ∀ v, exposedName.variant = some v → v < variantBound := by simp [exposedName]
  have hread : parse guardedName.render = .ok guardedName := by decide +kernel
  have hother : parse exposedName.render ≠ .ok exposedName := by decide +kernel
  exact ⟨hg, hread, (parse_render_iff guardedName hg).1 hread, he, hother,
    fun hd => hother ((parse_render_iff exposedName he).2 hd)⟩

end Baselines.Name
