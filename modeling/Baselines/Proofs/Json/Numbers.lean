import Baselines.Proofs.Json.Outcomes

/-!
# Readers of numbers

A number ends where a value may end, so that its digits are its own wherever it stands. What is made
of it depends on them only, as long as one that has a point or an exponent is refused: such a number
may also be refused for its size.
-/

namespace Baselines.Json.Reader

variable {β : Type} {t u w ds : Text}

/-! ## 1. Digits -/

theorem takeWhile_append {p : Char → Bool} (hd : ∀ c ∈ ds, p c = true)
    (ht : ∀ c ∈ t.head?, p c = false) (pos : Nat) :
    takeWhile p ⟨pos, ds ++ t⟩ = (.ok ds, ⟨pos + Encoding.utf8Length ds, t⟩) := by
  have htake : (ds ++ t).takeWhile p = ds := by
    rw [List.takeWhile_append_of_pos hd]
    cases t with
    | nil => simp
    | cons c t => rw [List.takeWhile_cons_of_neg (by simp [ht c rfl]), List.append_nil]
  simp only [takeWhile, htake, List.drop_left]

theorem any_isDigit_head? (ht : ∀ c ∈ t.head?, c.isDigit = false) :
    t.head?.any Char.isDigit = false :=
  (Option.any_eq_false_iff_get _ _).2 fun h => ht _ (Option.get_mem h)

theorem ne_of_isDigit {c d : Char} (hc : c.isDigit = true) (hd : d.isDigit = false) : c ≠ d := by
  rintro rfl
  simp [hd] at hc

theorem Follows.head (h : Follows u) {c : Char} (hc : c ∈ u.head?) :
    c.isDigit = false ∧ c ≠ '.' ∧ c ≠ 'e' ∧ c ≠ 'E' := by
  have hcases := h c hc
  simp only [isGap, Bool.or_eq_true, beq_iff_eq] at hcases
  rcases hcases with (((rfl | rfl) | rfl) | rfl) | rfl | rfl | rfl | rfl
  all_goals decide

/-- The digits before the point. -/
theorem number_append (h : w = ['0'] ∨ IsDigits w ∧ w.head? ≠ some '0') :
    ∃ s d, ∀ negative pos t, (∀ c ∈ t.head?, c.isDigit = false) →
      ∃ pos', number negative ⟨pos, w ++ t⟩ = afterDigits negative s d ⟨pos', t⟩ := by
  rcases h with rfl | ⟨⟨hne, hd⟩, h0⟩
  · refine ⟨0, 0, fun negative pos t ht => ?_⟩
    rw [number, List.cons_append, bind_ok (peek_cons _ _ _)]
    simp only [if_true]
    rw [bind_ok (skip_cons _ _ _), List.nil_append, bind_ok (peek_apply _), any_isDigit_head? ht]
    exact ⟨_, rfl⟩
  · obtain ⟨c, r, rfl⟩ := List.exists_cons_of_ne_nil hne
    have hzero : c ≠ '0' := by simpa using h0
    refine ⟨(fitting (Text.digitValue c) 0 r).1, r.length - (fitting (Text.digitValue c) 0 r).2,
      fun negative pos t ht => ?_⟩
    have hr := takeWhile_append (fun x hx => hd x (List.mem_cons_of_mem c hx)) ht
    rw [number, List.cons_append, bind_ok (peek_cons _ _ _)]
    simp only [if_neg hzero, hd c List.mem_cons_self, if_true]
    rw [bind_ok (skip_cons _ _ _), bind_ok (hr _)]
    exact ⟨_, rfl⟩

/-! ## 2. Numbers with a point or an exponent -/

-- Whether a number has a point, an exponent, or too many digits.
def IsReal (n : Number) : Prop := ∃ x, n = .real x

/-- Digits that are scaled by a power of ten are no whole number. -/
theorem gives_realOf (negative : Bool) (s : Nat) (e : Int) :
    Gives (realOf negative s e) IsReal := by
  rw [realOf]
  split
  next x _ => exact gives_pure ⟨x, rfl⟩
  next => exact gives_failHere _ _

theorem gives_exponent (negative : Bool) (s : Nat) (e : Int) :
    Gives (exponent negative s e) IsReal := by
  rw [exponent]
  refine .after fun _ => .after fun sign => ?_
  extract_lets step rest
  have hrest (x : Unit) : Gives (rest x) IsReal := by
    refine .after fun c => ?_
    cases c with
    | none => exact gives_failHere _ _
    | some c =>
      refine .ite (gives_failNext _ _) (.after fun _ => .after fun _ => ?_)
      refine .ite (.after fun _ => gives_realOf _ _ _) (.ite ?_ ?_)
      · exact .after fun _ => gives_failHere _ _
      · exact .after fun _ => gives_pure ⟨_, rfl⟩
  exact .ite (.after hrest) (hrest ())

/-- A number with a fraction is no whole number. -/
theorem gives_fraction (negative : Bool) (s : Nat) (e : Int) :
    Gives (fraction negative s e) IsReal := by
  rw [fraction]
  refine .after fun _ => .after fun ds => .ite (.after fun c => ?_) (.after fun c => ?_)
  · cases c <;> exact gives_failNext _ _
  · exact .ite (gives_exponent _ _ _) (gives_realOf _ _ _)

/-! ## 3. What is made of a number -/

section Made

variable {f : Number → Reader β} (hf : ∀ n, IsReal n → Gives (f n) fun _ => False)
include hf

theorem afterDigits_real (negative : Bool) (s d : Nat) {c : Char}
    (hc : c = '.' ∨ c = 'e' ∨ c = 'E') (pos : Nat) (t u : Text) :
    Ends ((afterDigits negative s d >>= f) ⟨pos, c :: t⟩) none u := by
  rw [afterDigits, bind_assoc, bind_ok (peek_cons _ _ _)]
  simp only [Option.some.injEq]
  rcases hc with rfl | hc
  · exact ((gives_fraction _ _ _).bind hf).ends _ _
  · rw [if_neg (by rcases hc with rfl | rfl <;> decide), if_pos hc]
    exact ((gives_exponent _ _ _).bind hf).ends _ _

variable (hw : ∀ m, Idle (f (.whole m)))
include hw

theorem settles_afterDigits (negative : Bool) (s d : Nat) :
    Settles (afterDigits negative s d >>= f) [] := by
  have hreal (negative : Bool) (s : Nat) (e : Int) : Idle (realOf negative s e >>= f) :=
    ((gives_realOf negative s e).bind hf).idle
  have hend : Idle ((if d ≠ 0 then realOf negative s d
      else if !negative then pure (.whole s)
      else if s = 0 ∨ Nat.pow 2 63 < s then realOf true s 0
      else pure (.whole (-(s : Int)))) >>= f) := by
    split_ifs
    · exact hreal _ _ _
    · exact hw _
    · exact hreal _ _ _
    · exact hw _
  obtain ⟨o, ho⟩ := hend
  refine ⟨o, fun pos u hu => ?_⟩
  have hne (c : Char) (hc : c = '.' ∨ c = 'e' ∨ c = 'E') : u.head? ≠ some c := by
    intro h
    have := hu.head h
    rcases hc with rfl | rfl | rfl <;> simp at this
  rw [List.nil_append, afterDigits, bind_assoc, bind_ok (peek_apply _), if_neg (hne '.' (by simp)),
    if_neg (not_or.2 ⟨hne 'e' (by simp), hne 'E' (by simp)⟩)]
  exact ho _

/-- What is made of a numeral is the same wherever it stands. -/
theorem settles_number (n : Numeral) :
    Settles (number n.negative >>= f) (n.whole ++ (n.fractionText ++ n.exponentText)) := by
  obtain ⟨s, d, hn⟩ := number_append n.whole_valid
  rcases n.afterWhole_cases with hrest | ⟨c, r, hrest, hc⟩
  · obtain ⟨o, ho⟩ := settles_afterDigits hf hw n.negative s d
    refine ⟨o, fun pos u hu => ?_⟩
    obtain ⟨pos', hpos⟩ := hn n.negative pos u fun c hc => (hu.head hc).1
    rw [hrest, List.append_nil, bind_congr hpos f]
    exact ho pos' u hu
  · refine ⟨none, fun pos u hu => ?_⟩
    have hdigit : c.isDigit = false := by rcases hc with rfl | rfl | rfl <;> rfl
    obtain ⟨pos', hpos⟩ := hn n.negative pos (c :: (r ++ u)) (by rintro c ⟨⟩; exact hdigit)
    rw [hrest, List.append_assoc, List.cons_append, bind_congr hpos f]
    exact afterDigits_real hf n.negative s d hc pos' _ u

/-- What is made of a number by a reader that refuses the real ones depends on its digits only. -/
theorem settles_signedNumber (n : Numeral) : Settles (signedNumber >>= f) n.text := by
  obtain ⟨o, ho⟩ := settles_number hf hw n
  refine ⟨o, fun pos u hu => ?_⟩
  rw [signedNumber, bind_assoc, Numeral.text]
  rcases hneg : n.negative
  · obtain ⟨c, r, hw, hc⟩ := n.exists_whole
    have hsign : some c ≠ some '-' := fun h => ne_of_isDigit hc rfl (Option.some.inj h)
    rw [hneg, hw] at ho
    rw [if_neg (by decide), List.nil_append, hw, List.cons_append, List.cons_append,
      bind_ok (peek_cons _ _ _), if_neg hsign]
    exact ho pos u hu
  · rw [hneg] at ho
    rw [if_pos rfl, List.cons_append, List.cons_append, bind_ok (peek_cons _ _ _), if_pos rfl,
      bind_assoc, bind_ok (skip_cons _ _ _)]
    exact ho _ u hu

end Made

/-! ## 4. Passing over numbers -/

theorem ends_passWhole (h : w = ['0'] ∨ IsDigits w ∧ w.head? ≠ some '0') (pos : Nat)
    (ht : ∀ c ∈ t.head?, c.isDigit = false) : Ends (passWhole ⟨pos, w ++ t⟩) (some ()) t := by
  rcases h with rfl | ⟨⟨hne, hd⟩, h0⟩
  · rw [passWhole, List.cons_append, bind_ok (peek_cons _ _ _)]
    simp only [if_true]
    rw [bind_ok (skip_cons _ _ _), List.nil_append, bind_ok (peek_apply _), any_isDigit_head? ht]
    exact ends_ok _ _ _
  · obtain ⟨c, r, rfl⟩ := List.exists_cons_of_ne_nil hne
    have hzero : c ≠ '0' := by simpa using h0
    rw [passWhole, List.cons_append, bind_ok (peek_cons _ _ _)]
    simp only [if_neg hzero, hd c List.mem_cons_self, if_true]
    rw [← List.cons_append, bind_ok (takeWhile_append hd ht _)]
    exact ends_ok _ _ _

theorem ends_passFraction (n : Numeral) (pos : Nat)
    (ht : ∀ c ∈ t.head?, c.isDigit = false ∧ c ≠ '.') :
    Ends (passFraction ⟨pos, n.fractionText ++ t⟩) (some ()) t := by
  rw [Numeral.fractionText]
  rcases h : n.fraction with _ | ds
  · have hpoint : t.head? ≠ some '.' := fun h => (ht _ h).2 rfl
    rw [Option.elim_none, List.nil_append, passFraction, bind_ok (peek_apply _), if_neg hpoint]
    exact ends_ok _ _ _
  · obtain ⟨hne, hd⟩ := n.fraction_valid ds h
    rw [Option.elim_some, List.cons_append, passFraction, bind_ok (peek_cons _ _ _), if_pos rfl,
      bind_ok (skip_cons _ _ _), someDigits,
      bind_ok (takeWhile_append hd (fun c hc => (ht c hc).1) _), if_neg hne]
    exact ends_ok _ _ _

theorem ends_passExponentDigits (h : IsDigits ds) (pos : Nat)
    (hu : ∀ c ∈ u.head?, c.isDigit = false) :
    Ends (passExponentDigits ⟨pos, ds ++ u⟩) (some ()) u := by
  obtain ⟨hne, hd⟩ := h
  obtain ⟨d, r, rfl⟩ := List.exists_cons_of_ne_nil hne
  rw [passExponentDigits, List.cons_append, bind_ok (peek_cons _ _ _)]
  simp only [hd d List.mem_cons_self, if_true]
  rw [← List.cons_append, bind_ok (takeWhile_append hd hu _)]
  exact ends_ok _ _ _

theorem ends_passExponent (n : Numeral) (pos : Nat)
    (hu : ∀ c ∈ u.head?, c.isDigit = false ∧ c ≠ 'e' ∧ c ≠ 'E') :
    Ends (passExponent ⟨pos, n.exponentText ++ u⟩) (some ()) u := by
  rw [Numeral.exponentText]
  rcases h : n.exponent with _ | ⟨c, sign, ds⟩
  · have hletter : ¬ (u.head? = some 'e' ∨ u.head? = some 'E') :=
      not_or.2 ⟨fun h => (hu _ h).2.1 rfl, fun h => (hu _ h).2.2 rfl⟩
    rw [Option.elim_none, List.nil_append, passExponent, bind_ok (peek_apply _), if_neg hletter]
    exact ends_ok _ _ _
  · obtain ⟨hc, hs, hd⟩ := n.exponent_valid _ h
    have hdigits (pos : Nat) := ends_passExponentDigits hd pos fun c hc => (hu c hc).1
    have hletter : some c = some 'e' ∨ some c = some 'E' := by simpa using hc
    change Ends (passExponent ⟨pos, c :: (sign.toList ++ ds ++ u)⟩) _ _
    rw [passExponent, bind_ok (peek_cons _ _ _), if_pos hletter, bind_ok (skip_cons _ _ _),
      bind_ok (peek_apply _), List.append_assoc]
    rcases sign with _ | sign
    · obtain ⟨d, r, rfl⟩ := List.exists_cons_of_ne_nil hd.1
      have hsign : ¬ (some d = some '+' ∨ some d = some '-') := by
        have hdigit : d.isDigit = true := hd.2 d List.mem_cons_self
        simp only [Option.some.injEq]
        exact not_or.2 ⟨ne_of_isDigit hdigit rfl, ne_of_isDigit hdigit rfl⟩
      rw [Option.toList_none, List.nil_append, List.cons_append, List.head?_cons, if_neg hsign]
      exact hdigits _
    · have hsign : some sign = some '+' ∨ some sign = some '-' := by simpa using hs sign rfl
      rw [Option.toList_some, List.cons_append, List.nil_append, List.head?_cons, if_pos hsign,
        bind_ok (skip_cons _ _ _)]
      exact hdigits _

/-- A numeral is passed up to what follows it. -/
theorem ends_passNumber (n : Numeral) (pos : Nat) (hu : Follows u) :
    Ends (passNumber ⟨pos, n.whole ++ (n.fractionText ++ (n.exponentText ++ u))⟩) (some ()) u := by
  have hexponent : ∀ c ∈ (n.exponentText ++ u).head?, c.isDigit = false ∧ c ≠ '.' := by
    rw [Numeral.exponentText]
    rcases h : n.exponent with _ | e
    · exact fun c hc => ⟨(hu.head hc).1, (hu.head hc).2.1⟩
    · rintro c ⟨⟩
      rcases (n.exponent_valid e h).1 with hc | hc <;> rw [hc] <;> decide
  have hfraction : ∀ c ∈ (n.fractionText ++ (n.exponentText ++ u)).head?, c.isDigit = false := by
    rw [Numeral.fractionText]
    rcases n.fraction with _ | ds
    · exact fun c hc => (hexponent c hc).1
    · rintro c ⟨⟩
      rfl
  rw [passNumber]
  refine (ends_passWhole n.whole_valid pos hfraction).bind_some fun pos => ?_
  refine (ends_passFraction n pos hexponent).bind_some fun pos => ?_
  exact ends_passExponent n pos fun c hc => ⟨(hu.head hc).1, (hu.head hc).2.2⟩

end Baselines.Json.Reader
