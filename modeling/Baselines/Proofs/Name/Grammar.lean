import Baselines.Proofs.Name.RoundTrip

/-!
# The grammar of file names

What the file name of a baseline may look like, said without a reader: an extension, before it a
stage and a variant where the last pieces say them, and before those a test with the options in
parentheses behind it. The reader takes what the grammar has and refuses the rest, but for one
case: where options follow, it does not look for a closing parenthesis in the test.
-/

namespace Baselines.Name

open Text

/-! ## 1. What is cut from the end -/

/-- Whether a piece of a name is the label of a stage, but for blanks around it and the case of its
ASCII letters. -/
def SaysStage (piece : Text) (s : Stage) : Prop := lowerAscii (trim piece) = s.label

/-- Whether a piece of a name writes a variant in decimal digits. -/
structure SaysVariant (piece : Text) (v : Nat) : Prop where
  ne_nil : piece ≠ []
  digits : ∀ c ∈ piece, c.isDigit = true
  value : Nat.ofDigitChars 10 piece 0 = v
  bound : v < variantBound

theorem stage?_iff {piece : Text} {s : Stage} : stage? piece = some s ↔ SaysStage piece s :=
  stage?_eq_some

theorem variant?_iff {piece : Text} {v : Nat} :
    variant? piece = some v ↔ SaysVariant piece v := by
  rw [variant?_eq_some]
  constructor
  · rintro ⟨hne, hd, hv, hb⟩
    exact ⟨hne, hd, hv, hb⟩
  · rintro ⟨hne, hd, hv, hb⟩
    exact ⟨hne, hd, hv, hb⟩

/-- A text, what stays of it, and what its last piece says. The piece is cut off when it says
something; else the text stays as it is. -/
inductive Cut {α : Type} (Says : Text → α → Prop) : Text → Text → Option α → Prop
  | said {front piece : Text} {a : α} (hdot : '.' ∉ piece) (hs : Says piece a) :
      Cut Says (front ++ '.' :: piece) front (some a)
  | silent {t : Text}
      (h : ∀ front piece, t = front ++ '.' :: piece → '.' ∉ piece → ∀ a, ¬Says piece a) :
      Cut Says t t none

theorem cut_iff_peel {α : Type} {Says : Text → α → Prop} {read : Text → Option α}
    (hread : ∀ {piece a}, read piece = some a ↔ Says piece a) {t front : Text} {a : Option α} :
    Cut Says t front a ↔ peel read t = (front, a) := by
  constructor
  · rintro (⟨hdot, hs⟩ | h)
    · exact peel_piece hdot (hread.2 hs) front
    · refine peel_of_silent fun front piece hs => ?_
      obtain ⟨he, hdot⟩ := splitLast?_eq_some hs
      exact Option.eq_none_iff_forall_ne_some.2 fun a hr => h front piece he hdot a (hread.1 hr)
  · intro h
    rcases peel_eq h with ⟨rfl, rfl⟩ | ⟨piece, rfl, hdot, hr, hne⟩
    · refine .silent fun f piece he hdot a hs => ?_
      have hnone := (silent_of_peel h).2 f piece (he ▸ splitLast?_append f hdot)
      rw [hread.2 hs] at hnone
      exact absurd hnone (by simp)
    · obtain ⟨b, rfl⟩ := Option.ne_none_iff_exists'.1 hne
      exact .said hdot (hread.1 hr)

/-- What is left of a file name, beside what was cut from its end. -/
structure Remainder where
  rest : Text
  variant : Option Nat
  stage : Option Stage
  extension : Text

/-- Whether this is left of a file name when its extension, then its stage, and then its variant are
cut off. -/
def Remains (t : Text) (r : Remainder) : Prop :=
  r.extension ∈ extensions ∧ ∃ stem staged, t = stem ++ '.' :: r.extension ∧
    Cut SaysStage stem staged r.stage ∧ Cut SaysVariant staged r.rest r.variant

theorem remains_iff {t : Text} {r : Remainder} : Remains t r ↔ r.extension ∈ extensions ∧
    ∃ stem staged, splitLast? '.' t = some (stem, r.extension) ∧
      peel stage? stem = (staged, r.stage) ∧ peel variant? staged = (r.rest, r.variant) := by
  refine and_congr_right fun he => exists₂_congr fun stem staged => ?_
  rw [cut_iff_peel stage?_iff, cut_iff_peel variant?_iff]
  refine and_congr_left' ⟨?_, fun h => (splitLast?_eq_some h).1⟩
  rintro rfl
  exact splitLast?_append stem (not_mem_extension he)

/-- What is left of a file name is determined by it. -/
theorem Remains.unique {t : Text} {r r' : Remainder} (h : Remains t r) (h' : Remains t r') :
    r' = r := by
  obtain ⟨-, stem, staged, ht, hs, hv⟩ := remains_iff.1 h
  obtain ⟨-, stem', staged', ht', hs', hv'⟩ := remains_iff.1 h'
  rw [ht, Option.some.injEq, Prod.mk.injEq] at ht'
  rw [← ht'.1, hs, Prod.mk.injEq] at hs'
  rw [← hs'.1, hv, Prod.mk.injEq] at hv'
  cases r
  cases r'
  rw [Remainder.mk.injEq]
  exact ⟨hv'.1.symm, hv'.2.symm, hs'.2.symm, ht'.2.symm⟩

/-! ## 2. Reading what is left -/

variable {t rest test inner : Text} {raws : List Text} {os : List (Text × Text)} {n : Name}
  {r : Remainder}

/-- What is read of a file name is what is read of its remainder. -/
theorem Remains.parse_eq (h : Remains t r) : parse t = (splitStem t r.rest >>= fun p =>
    if p.1 = [] then .error (.emptyTest t)
    else .ok ⟨p.1, p.2, r.variant, r.stage, r.extension⟩) := by
  obtain ⟨he, stem, staged, ht, hs, hv⟩ := remains_iff.1 h
  unfold parse
  simp only [ht, Option.getD_some, List.contains_eq_mem, he, decide_true, Bool.not_true,
    Bool.false_eq_true, if_false, hs, hv]

/-- A file name of which nothing is left does not end in one of the extensions. -/
theorem parse_of_not_remains (h : ∀ r, ¬Remains t r) : ∃ e, parse t = .error (.badExtension t e) := by
  refine ⟨((splitLast? '.' t).getD (t, [])).2, ?_⟩
  unfold parse
  refine if_pos ?_
  rw [Bool.not_eq_true', List.contains_eq_mem, decide_eq_false_iff_not]
  intro he
  cases ht : splitLast? '.' t with
  | none =>
    rw [ht] at he
    exact absurd he (by simp [extensions])
  | some p =>
    rw [ht] at he
    exact h ⟨_, _, _, p.2⟩ (remains_iff.2 ⟨he, p.1, _, ht, rfl, rfl⟩)

/-! ## 3. Options -/

/-- Whether every item that is not blank has an `=` in it. -/
def Keyed (inner : Text) : Prop := ∀ item ∈ splitOn ',' inner, trim item ≠ [] → '=' ∈ item

theorem exists_lists : (∃ os, Lists raws os) ↔ ∀ raw ∈ raws, trim raw ≠ [] → '=' ∈ raw := by
  constructor
  · rintro ⟨os, h⟩
    induction h with
    | nil => simp
    | blank hraw _ ih => exact List.forall_mem_cons.2 ⟨fun hne => absurd hraw hne, ih⟩
    | item hraw _ _ ih =>
      refine List.forall_mem_cons.2 ⟨fun _ => mem_of_mem_trim ?_, ih⟩
      simp [hraw]
  · intro h
    induction raws with
    | nil => exact ⟨[], .nil⟩
    | cons raw raws ih =>
      obtain ⟨hraw, hraws⟩ := List.forall_mem_cons.1 h
      obtain ⟨os, hos⟩ := ih hraws
      by_cases hblank : trim raw = []
      · exact ⟨os, .blank hblank hos⟩
      · cases hs : splitFirst? '=' (trim raw) with
        | none =>
          exact absurd (mem_trim (hraw hblank) (by decide)) (splitFirst?_eq_none.1 hs)
        | some p =>
          obtain ⟨he, hk⟩ := splitFirst?_eq_some hs
          exact ⟨_, .item he hk hos⟩

-- Options are refused for an item without an `=`, and for nothing else.
theorem readOptions_ne_unbalanced {name : Text} : readOptions name raws ≠ .error (.unbalanced name) := by
  induction raws with
  | nil => simp [readOptions]
  | cons raw raws ih =>
    rw [readOptions]
    split
    · exact ih
    · cases splitFirst? '=' (trim raw) with
      | none => simp
      | some p =>
        cases hr : readOptions name raws with
        | error e =>
          rw [hr] at ih
          exact ih
        | ok os => simp [Except.map]

/-! ## 4. Parentheses -/

/-- Whether no parenthesis stands in a text. -/
def Plain (t : Text) : Prop := '(' ∉ t ∧ ')' ∉ t

/-- A text with another one in parentheses behind it. -/
def enclosing (test inner : Text) : Text := test ++ '(' :: (inner ++ [')'])

/-- The remainders of the grammar: a test, and behind it options in parentheses or nothing. No
other parenthesis stands in them. -/
inductive InGrammar : Text → Prop
  | bare {test : Text} (hne : test ≠ []) (ht : Plain test) : InGrammar test
  | listed {test inner : Text} (hne : test ≠ []) (ht : Plain test) (hi : Plain inner)
      (hk : Keyed inner) : InGrammar (enclosing test inner)

/-- The remainders whose parentheses are where the grammar has them, whatever stands there. -/
inductive Balanced : Text → Prop
  | bare {test : Text} (ht : Plain test) : Balanced test
  | listed {test inner : Text} (ht : Plain test) (hi : Plain inner) :
      Balanced (enclosing test inner)

/-- Whether a parenthesis is closed in the test, before the only one that is opened. -/
def ClosedEarly (rest : Text) : Prop :=
  ∃ test inner, rest = enclosing test inner ∧ ')' ∈ test ∧ '(' ∉ test ∧ Plain inner

/-- A remainder, with the test and the options in it. The test is all that stands before the options,
blanks included. -/
inductive Parts : Text → Text → List (Text × Text) → Prop
  | bare {test : Text} (ht : Plain test) : Parts test test []
  | listed {test inner : Text} {os : List (Text × Text)} (ht : '(' ∉ test) (hi : Plain inner)
      (ho : Lists (splitOn ',' inner) os) : Parts (enclosing test inner) test os

theorem splitStem_eq_ok (name : Text) : splitStem name rest = .ok (test, os) ↔ Parts rest test os := by
  constructor
  · intro h
    rcases splitStem_ok h with ⟨rfl, rfl, ho, hc⟩ | ⟨inner, rfl, ht, hio, hic, hr⟩
    · exact .bare ⟨ho, hc⟩
    · exact .listed ht ⟨hio, hic⟩ (readOptions_eq_ok.1 hr)
  · rintro (⟨ho, hc⟩ | ⟨ht, hi, ho⟩)
    · rw [splitStem, splitFirst?_eq_none.2 ho]
      exact if_neg hc
    · exact splitStem_parentheses.2 ⟨rfl, ht, hi.1, hi.2, readOptions_eq_ok.2 ho⟩

theorem splitStem_enclosing (name : Text) (ht : '(' ∉ test) (hi : Plain inner) :
    splitStem name (enclosing test inner) =
      (readOptions name (splitOn ',' inner)).map fun os => (test, os) := by
  have htail : dropTail? [')'] (inner ++ [')']) = some inner := dropTail?_eq_some.2 rfl
  simp only [splitStem, enclosing, splitFirst?_append ht, htail, hi.1, hi.2, or_self, if_false]

/-- The parentheses of a remainder are refused when they are not those of a test and its options,
where one that is closed in the test does no harm. -/
theorem splitStem_eq_unbalanced (name : Text) :
    splitStem name rest = .error (.unbalanced name) ↔
    ¬Balanced rest ∧ ¬ClosedEarly rest := by
  have hlisted : ∀ {test inner}, '(' ∉ test → Plain inner →
      splitStem name (enclosing test inner) ≠ .error (.unbalanced name) := by
    intro test inner ht hi h
    rw [splitStem_enclosing name ht hi] at h
    cases hr : readOptions name (splitOn ',' inner) with
    | error e =>
      rw [hr, Except.map, Except.error.injEq] at h
      exact readOptions_ne_unbalanced (hr.trans (congrArg Except.error h))
    | ok os => simp [hr, Except.map] at h
  constructor
  · intro h
    refine ⟨?_, ?_⟩
    · rintro (ht | ⟨ht, hi⟩)
      · rw [(splitStem_eq_ok name).2 (.bare ht)] at h
        exact absurd h (by simp)
      · exact hlisted ht.1 hi h
    · rintro ⟨test, inner, rfl, -, ht, hi⟩
      exact hlisted ht hi h
  · rintro ⟨hb, hc⟩
    unfold splitStem
    cases hs : splitFirst? '(' rest with
    | none =>
      refine if_pos (Classical.not_not.1 fun hn => hb (.bare ⟨splitFirst?_eq_none.1 hs, hn⟩))
    | some p =>
      obtain ⟨test, tail⟩ := p
      obtain ⟨rfl, ht⟩ := splitFirst?_eq_some hs
      cases htail : dropTail? [')'] tail with
      | none => simp only [htail]
      | some inner =>
        simp only [htail]
        obtain rfl := dropTail?_eq_some.1 htail
        refine if_pos (Classical.not_not.1 fun hn => ?_)
        by_cases hct : ')' ∈ test
        · exact hc ⟨test, inner, rfl, hct, ht, not_or.1 hn⟩
        · exact hb (.listed ⟨ht, hct⟩ (not_or.1 hn))

theorem enclosing_inj {test' inner' : Text} (ht : '(' ∉ test) (ht' : '(' ∉ test')
    (h : enclosing test inner = enclosing test' inner') : test = test' := by
  have hs := congrArg (splitFirst? '(') h
  rw [enclosing, enclosing, splitFirst?_append ht, splitFirst?_append ht', Option.some.injEq,
    Prod.mk.injEq] at hs
  exact hs.1

theorem ClosedEarly.not_balanced (h : ClosedEarly rest) : ¬Balanced rest := by
  obtain ⟨test, inner, rfl, hc, ht, -⟩ := h
  intro hb
  generalize he : enclosing test inner = rest at hb
  cases hb with
  | bare hp =>
    apply hp.1
    rw [← he]
    exact List.mem_append_right test List.mem_cons_self
  | listed hp _ =>
    rw [enclosing_inj ht hp.1 he] at hc
    exact hp.2 hc

-- What the grammar has is what has a test and options in it.
theorem exists_parts (h : ¬ClosedEarly rest) :
    (∃ test os, Parts rest test os ∧ test ≠ []) ↔ InGrammar rest := by
  constructor
  · rintro ⟨test, os, ht | ⟨ht, hi, ho⟩, hne⟩
    · exact .bare hne ht
    · have hc : ')' ∉ test := fun hm => h ⟨test, _, rfl, hm, ht, hi⟩
      exact .listed hne ⟨ht, hc⟩ hi (exists_lists.1 ⟨os, ho⟩)
  · rintro (⟨hne, ht⟩ | ⟨hne, ht, hi, hk⟩)
    · exact ⟨_, [], .bare ht, hne⟩
    · obtain ⟨os, ho⟩ := exists_lists.2 hk
      exact ⟨_, os, .listed ht.1 hi ho, hne⟩

/-! ## 5. File names -/

theorem Remains.parse_eq_ok (h : Remains t r) : parse t = .ok n ↔
    (Parts r.rest n.test n.options ∧ n.test ≠ []) ∧
      n.variant = r.variant ∧ n.stage = r.stage ∧ n.extension = r.extension := by
  rw [h.parse_eq, ← splitStem_eq_ok t]
  obtain ⟨test, options, variant, stage, extension⟩ := n
  cases splitStem t r.rest with
  | error e => simp [bind, Except.bind]
  | ok p =>
    obtain ⟨test', options'⟩ := p
    by_cases hp : test' = []
    · simp only [bind, Except.bind, hp, if_true, reduceCtorEq, Except.ok.injEq, Prod.mk.injEq,
        false_iff, not_and]
      rintro ⟨⟨rfl, -⟩, hne⟩
      exact absurd rfl hne
    · simp only [bind, Except.bind, hp, if_false, Except.ok.injEq, Name.mk.injEq, Prod.mk.injEq]
      constructor
      · rintro ⟨rfl, rfl, rfl, rfl, rfl⟩
        exact ⟨⟨⟨rfl, rfl⟩, hp⟩, rfl, rfl, rfl⟩
      · rintro ⟨⟨⟨rfl, rfl⟩, -⟩, rfl, rfl, rfl⟩
        exact ⟨rfl, rfl, rfl, rfl, rfl⟩

theorem Remains.parse_eq_unbalanced (h : Remains t r) :
    parse t = .error (.unbalanced t) ↔ ¬Balanced r.rest ∧ ¬ClosedEarly r.rest := by
  rw [h.parse_eq, ← splitStem_eq_unbalanced t]
  cases splitStem t r.rest with
  | error e => simp [bind, Except.bind]
  | ok p =>
    by_cases hp : p.1 = [] <;> simp [bind, Except.bind, hp]

/-- Whether a file name is read as the grammar has it: it is read exactly when its remainder is in
the grammar, parentheses that stand elsewhere are refused as such, and what is read are the parts. -/
structure Conforms (t : Text) (r : Remainder) : Prop where
  read : (∃ n, parse t = .ok n) ↔ InGrammar r.rest
  refused : ¬Balanced r.rest → parse t = .error (.unbalanced t)
  parts : ∀ n, parse t = .ok n → Parts r.rest n.test n.options ∧
    n.variant = r.variant ∧ n.stage = r.stage ∧ n.extension = r.extension

theorem Remains.conforms_iff (h : Remains t r) : Conforms t r ↔ ¬ClosedEarly r.rest := by
  constructor
  · intro hc he
    exact (h.parse_eq_unbalanced.1 (hc.refused he.not_balanced)).2 he
  · intro he
    refine ⟨?_, fun hb => h.parse_eq_unbalanced.2 ⟨hb, he⟩, fun n hn => ?_⟩
    · rw [← exists_parts he]
      constructor
      · rintro ⟨n, hn⟩
        exact ⟨n.test, n.options, (h.parse_eq_ok.1 hn).1⟩
      · rintro ⟨test, os, hp⟩
        exact ⟨⟨test, os, r.variant, r.stage, r.extension⟩, h.parse_eq_ok.2 ⟨hp, rfl, rfl, rfl⟩⟩
    · obtain ⟨⟨hp, -⟩, hr⟩ := h.parse_eq_ok.1 hn
      exact ⟨hp, hr⟩

/-- A file name that does not end in an extension is refused for it. Any other one has one remainder,
and it is read as the grammar has it, unless a parenthesis is closed in its test; then too what is
read are the parts of the remainder. -/
theorem parse_conforms_iff (t : Text) :
    ((∀ r, ¬Remains t r) ∧ ∃ e, parse t = .error (.badExtension t e)) ∨
      ∃ r, Remains t r ∧ (∀ r', Remains t r' → r' = r) ∧ (Conforms t r ↔ ¬ClosedEarly r.rest) ∧
        ∀ n, parse t = .ok n ↔ (Parts r.rest n.test n.options ∧ n.test ≠ []) ∧
          n.variant = r.variant ∧ n.stage = r.stage ∧ n.extension = r.extension := by
  by_cases h : ∃ r, Remains t r
  · obtain ⟨r, hr⟩ := h
    exact Or.inr ⟨r, hr, fun r' hr' => hr.unique hr', hr.conforms_iff, fun n => hr.parse_eq_ok⟩
  · rw [not_exists] at h
    exact Or.inl ⟨h, parse_of_not_remains h⟩

/-- A file name whose test closes a parenthesis is read, although the grammar does not have it. -/
theorem parse_closed_early : Remains "a)b(k=v).js" ⟨"a)b(k=v)", none, none, "js"⟩ ∧
    ClosedEarly "a)b(k=v)" ∧ ¬Balanced "a)b(k=v)" ∧
    parse "a)b(k=v).js" = .ok
      { test := "a)b", options := [("k", "v")], variant := none, stage := none, extension := "js" } := by
  have hc : ClosedEarly "a)b(k=v)" := ⟨"a)b", "k=v", by decide +kernel, by decide, by decide,
    by decide, by decide⟩
  refine ⟨remains_iff.2 ⟨by decide, "a)b(k=v)", "a)b(k=v)", ?_, ?_, ?_⟩, hc, hc.not_balanced, ?_⟩
  · decide +kernel
  · decide +kernel
  · decide +kernel
  · decide +kernel

end Baselines.Name
