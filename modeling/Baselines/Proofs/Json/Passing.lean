import Baselines.Proofs.Json.Brackets

/-!
# Passing over values

A value that nothing is made of is passed with all that is nested in it, however deep that is, and
no more of the text than the value.
-/

namespace Baselines.Json.Reader

/-! ## 1. Plain values -/

variable {n : Nat} {isObject : Bool} {opened : List Bool} {t u v : Text}

/-- That a value is passed in no more steps than it has characters, whatever is open around it. -/
def Passes (v : Text) : Prop :=
  ∃ k ≤ v.length, ∀ n opened pos (b : Gap) u, Follows u → ∃ pos',
    passOpen (n + k) false opened ⟨pos, b ++ (v ++ u)⟩ = passOpen n true opened ⟨pos', u⟩

/-- What is neither a list nor an object is passed as its first character says. -/
theorem passes_plain {c : Char} {r : Text} (hgap : isGap c = false) (hc : ¬ (c = '[' ∨ c = '{'))
    (h : ∀ pos u, Follows u → Ends (passPlain c ⟨pos, c :: (r ++ u)⟩) (some ()) u) :
    Passes (c :: r) := by
  refine ⟨1, by simp, fun n opened pos b u hu => ?_⟩
  obtain ⟨pos', hpos⟩ := h (pos + b.1.length) u hu
  rw [passOpen, List.cons_append, bind_ok (peekToken_append pos b hgap (r ++ u))]
  simp only [if_neg hc]
  rw [bind_ok hpos]
  exact ⟨pos', rfl⟩

theorem passes_null : Passes "null" :=
  passes_plain (r := "ull") rfl (by decide) fun pos u _ => ends_null pos u

theorem passes_bool (b : Bool) : Passes (if b then "true" else "false") := by
  cases b with
  | true => exact passes_plain (r := "rue") rfl (by decide) fun pos u _ => ends_ident "rue" _ u
  | false => exact passes_plain (r := "alse") rfl (by decide) fun pos u _ => ends_ident "alse" _ u

theorem passes_string (ps : List Piece) : Passes (quoted ps) := by
  refine passes_plain rfl (by decide) fun pos u _ => ?_
  obtain ⟨t, ht⟩ := ends_string_passed ps pos u
  exact ht.map fun _ => ()

theorem passPlain_digit {c : Char} (h : c.isDigit = true) : passPlain c = passNumber := by
  have hne (d : Char) (hd : d.isDigit = false) : c ≠ d := ne_of_isDigit h hd
  rw [passPlain, if_neg (hne _ rfl), if_neg (hne _ rfl), if_neg (hne _ rfl), if_neg (hne _ rfl),
    if_pos h]

/-- A number is passed, however large. -/
theorem passes_number (n : Numeral) : Passes n.text := by
  have htext (u : Text) : n.whole ++ (n.fractionText ++ n.exponentText) ++ u =
      n.whole ++ (n.fractionText ++ (n.exponentText ++ u)) := by
    simp only [List.append_assoc]
  rw [Numeral.text]
  rcases n.negative
  · obtain ⟨c, r, hw, hc⟩ := n.exists_whole
    have hne (d : Char) (hd : d.isDigit = false) : c ≠ d := ne_of_isDigit hc hd
    have hgap : isGap c = false := by
      simp [isGap, hne ' ' rfl, hne '\n' rfl, hne '\t' rfl, hne '\r' rfl]
    rw [if_neg (by decide), List.nil_append, hw, List.cons_append]
    refine passes_plain hgap (not_or.2 ⟨hne _ rfl, hne _ rfl⟩) fun pos u hu => ?_
    have hpass := ends_passNumber n pos hu
    rw [← htext, hw] at hpass
    rw [passPlain_digit hc]
    exact hpass
  · refine passes_plain rfl (by decide) fun pos u hu => ?_
    have hpass := ends_passNumber n (pos + 1) hu
    rw [← htext] at hpass
    exact hpass

/-! ## 2. What is open -/

-- Passes the next item, or the name and the value of the next field, of what is open.
def passPart (n : Nat) (isObject : Bool) (opened : List Bool) : Reader Unit :=
  if isObject then do
    passName
    passOpen n false (isObject :: opened)
  else passOpen n false (isObject :: opened)

-- The mark at the start of an array or object.
def startMark (isObject : Bool) : Char := if isObject then '{' else '['

/-- Behind a comma another part is to come. -/
theorem passOpen_comma (pos : Nat) (gap : Gap) (t : Text) : ∃ pos',
    passOpen (n + 1) true (isObject :: opened) ⟨pos, gap ++ ',' :: t⟩ =
      passPart n isObject opened ⟨pos', t⟩ := by
  cases isObject
  all_goals
    simp only [passOpen, endMark]
    rw [bind_ok (peekToken_append pos gap rfl t)]
    exact ⟨_, rfl⟩

/-- A closing bracket closes the innermost list or object. -/
theorem passOpen_end (pos : Nat) (gap : Gap) (t : Text) : ∃ pos',
    passOpen (n + 1) true (isObject :: opened) ⟨pos, gap ++ (endMark isObject).1 :: t⟩ =
      passOpen n true opened ⟨pos', t⟩ := by
  cases isObject
  all_goals
    simp only [passOpen, endMark, Bool.false_eq_true, if_false, if_true]
    rw [bind_ok (peekToken_append pos gap rfl t)]
    exact ⟨_, rfl⟩

/-- A list or an object without parts is passed at once. -/
theorem passOpen_empty (pos : Nat) (b gap : Gap) (t : Text) : ∃ pos',
    passOpen (n + 1) false opened
      ⟨pos, b ++ startMark isObject :: (gap ++ (endMark isObject).1 :: t)⟩ =
      passOpen n true opened ⟨pos', t⟩ := by
  cases isObject
  all_goals
    simp only [passOpen, startMark, endMark, Bool.false_eq_true, if_false, if_true]
    rw [bind_ok (peekToken_append pos b rfl _)]
    simp only [or_true, true_or, if_true]
    rw [bind_ok (skip_cons _ _ _), bind_ok (peekToken_append _ gap rfl t)]
    exact ⟨_, rfl⟩

/-- An opening bracket opens a list or an object around those that follow. -/
theorem passOpen_start {d : Char} (hd : isGap d = false) (hend : d ≠ (endMark isObject).1)
    (pos : Nat) (b gap : Gap) (t : Text) : ∃ pos',
    passOpen (n + 1) false opened ⟨pos, b ++ startMark isObject :: (gap ++ d :: t)⟩ =
      passPart n isObject opened ⟨pos', d :: t⟩ := by
  cases isObject
  all_goals
    simp only [passOpen, startMark, Bool.false_eq_true, if_false, if_true]
    rw [bind_ok (peekToken_append pos b rfl _)]
    simp only [or_true, true_or, if_true]
    rw [bind_ok (skip_cons _ _ _), bind_ok (peekToken_append _ gap hd t)]
    exact ⟨_, congrFun (if_neg hend) _⟩

/-- That a part of an array or object is passed in no more steps than it has characters. -/
def PartPasses (isObject : Bool) (core : Text) : Prop :=
  ∃ k ≤ core.length, ∀ n opened pos (b : Gap) u, Follows u → ∃ pos',
    passPart (n + k) isObject opened ⟨pos, b ++ (core ++ u)⟩ =
      passOpen n true (isObject :: opened) ⟨pos', u⟩

theorem Passes.item (h : Passes v) : PartPasses false v := by
  obtain ⟨k, hk, h⟩ := h
  exact ⟨k, hk, fun n opened => h n (false :: opened)⟩

theorem Passes.member {m : Member} (h : Passes m.value) : PartPasses true m.core := by
  obtain ⟨k, hk, h⟩ := h
  refine ⟨k, ?_, fun n opened pos b u hu => ?_⟩
  · simp only [Member.core, List.length_append, List.length_cons]
    omega
  · obtain ⟨t, pos', ht⟩ := ends_string_passed m.name (pos + b.1.length)
      (m.middle ++ ':' :: (m.lead ++ (m.value ++ u)))
    obtain ⟨pos'', hcolon⟩ := ends_colon pos' m.middle (m.lead ++ (m.value ++ u))
    rw [quoted_append] at ht
    rw [passPart, if_pos rfl, passName, bind_assoc, Member.core_append, quoted_append,
      bind_ok (peekToken_append pos b rfl _)]
    simp only
    rw [bind_assoc, bind_ok ht, bind_ok hcolon]
    exact h n (true :: opened) pos'' m.lead u hu

/-! ## 3. Arrays and objects -/

/-- The parts behind the first are passed in turn, in a number of steps that the text bounds. -/
theorem passes_rest (ps : List Part) (hp : ∀ p ∈ ps, PartPasses isObject p.core) (gap : Gap) :
    ∃ k ≤ (spread false gap ps).length + 1, ∀ n opened pos u, ∃ pos',
      passOpen (n + k) true (isObject :: opened)
        ⟨pos, spread false gap ps ++ (endMark isObject).1 :: u⟩ =
        passOpen n true opened ⟨pos', u⟩ := by
  induction ps generalizing gap with
  | nil => exact ⟨1, by omega, fun n opened pos u => passOpen_end pos gap u⟩
  | cons p ps ih =>
    obtain ⟨⟨k, hk, hpass⟩, hps⟩ := List.forall_mem_cons.1 hp
    obtain ⟨l, hl, hrest⟩ := ih hps p.after
    refine ⟨l + k + 1, ?_, fun n opened pos u => ?_⟩
    · simp only [spread, Bool.false_eq_true, if_false, List.length_append, List.length_cons]
      omega
    · have hfollows : Follows (spread false p.after ps ++ (endMark isObject).1 :: u) :=
        Follows.spread (by cases isObject <;> simp [endMark])
      rw [spread_false_cons, ← Nat.add_assoc, ← Nat.add_assoc]
      obtain ⟨pos₁, h₁⟩ := passOpen_comma pos gap _
      obtain ⟨pos₂, h₂⟩ := hpass (n + l) opened pos₁ p.before _ hfollows
      obtain ⟨pos₃, h₃⟩ := hrest n opened pos₂ u
      exact ⟨pos₃, h₁.trans (h₂.trans h₃)⟩

/-- A list or an object is passed if its parts are. -/
theorem passes_bracketed (ps : List Part) (hp : ∀ p ∈ ps, PartPasses isObject p.core)
    (hd : ∀ p ∈ ps, ∃ d r, p.core = d :: r ∧ isGap d = false ∧ d ≠ (endMark isObject).1)
    (gap : Gap) :
    Passes (startMark isObject :: (spread true gap ps ++ [(endMark isObject).1])) := by
  cases ps with
  | nil =>
    refine ⟨1, by simp, fun n opened pos b u _ => ?_⟩
    rw [spread, List.cons_append, List.append_assoc, List.singleton_append]
    exact passOpen_empty pos b gap u
  | cons p ps =>
    obtain ⟨⟨k, hk, hpass⟩, hps⟩ := List.forall_mem_cons.1 hp
    obtain ⟨d, r, hcore, hgap, hend⟩ := hd p List.mem_cons_self
    obtain ⟨l, hl, hrest⟩ := passes_rest ps hps p.after
    refine ⟨l + k + 1, ?_, fun n opened pos b u _ => ?_⟩
    · simp only [spread, if_true, List.nil_append, List.length_append, List.length_cons]
      omega
    · have hfollows : Follows (spread false p.after ps ++ (endMark isObject).1 :: u) :=
        Follows.spread (by cases isObject <;> simp [endMark])
      have hcons : p.core ++ (spread false p.after ps ++ (endMark isObject).1 :: u) =
          d :: (r ++ (spread false p.after ps ++ (endMark isObject).1 :: u)) := by
        rw [hcore, List.cons_append]
      rw [List.cons_append, List.append_assoc, List.singleton_append, spread_true_cons, hcons,
        ← Nat.add_assoc, ← Nat.add_assoc]
      obtain ⟨pos₁, h₁⟩ := passOpen_start hgap hend pos b p.before _
      obtain ⟨pos₂, h₂⟩ := hpass (n + l) opened pos₁ noGap _ hfollows
      obtain ⟨pos₃, h₃⟩ := hrest n opened pos₂ u
      rw [noGap_append, hcons] at h₂
      exact ⟨pos₃, h₁.trans (h₂.trans h₃)⟩

/-- Every value is passed. -/
theorem IsValue.passes (h : IsValue v) : Passes v := by
  induction h with
  | null => exact passes_null
  | bool b => exact passes_bool b
  | number n => exact passes_number n
  | string ps => exact passes_string ps
  | array gap xs h ih =>
    rw [arrayText_spread]
    change Passes (startMark false :: (_ ++ [(endMark false).1]))
    refine passes_bracketed _ ?_ ?_ gap
    · simp only [List.forall_mem_map]
      exact fun x hx => (ih x hx).item
    · simp only [List.forall_mem_map]
      exact fun x hx => (h x hx).exists_head
  | object gap ms h ih =>
    rw [objectText_spread]
    change Passes (startMark true :: (_ ++ [(endMark true).1]))
    refine passes_bracketed _ ?_ ?_ gap
    · simp only [List.forall_mem_map]
      exact fun m hm => (ih m hm).member
    · simp only [List.forall_mem_map]
      exact fun m _ => ⟨'"', _, rfl, by decide, by decide⟩

/-- Every value can be passed. -/
theorem reads_passValue (h : IsValue v) : Reads passValue v (some ()) := by
  obtain ⟨k, hk, hpass⟩ := IsValue.passes h
  intro pos b u hu
  rw [passValue, bind_ok (unread_apply _)]
  obtain ⟨m, hm⟩ : ∃ m, 2 * (b ++ (v ++ u)).length + 2 = m + 1 + k := by
    simp only [List.length_append]
    exact ⟨2 * (b.1.length + (v.length + u.length)) + 1 - k, by omega⟩
  obtain ⟨pos', hpos⟩ := hpass (m + 1) [] pos b u hu
  simp only [hm, hpos]
  exact ends_ok _ _ _

end Baselines.Json.Reader
