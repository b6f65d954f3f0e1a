import Baselines.Proofs.Json.Numbers
import Baselines.Proofs.Json.Strings

/-!
# Readers of plain values

The first character of a value says of which kind it is. Strings, numbers and the null are read
alike wherever they stand, and so is any value by a reader that refuses all but truth values and
strings.
-/

namespace Baselines.Json.Reader

variable {α β : Type}

/-! ## 1. By the first character -/

/-- A reader that looks at the first character of a value is steady if it settles for each. -/
theorem steady_peekToken {f : Option Char → Reader α}
    (h : ∀ c v, Starts c v → Settles (f (some c)) v) : Steady (peekToken >>= f) := by
  refine steady_of fun v hv => ?_
  obtain ⟨c, hc⟩ := hv.starts
  obtain ⟨o, ho⟩ := h c v hc
  obtain ⟨r, rfl⟩ := hc.head
  refine ⟨o, fun pos b u hu => ?_⟩
  rw [List.cons_append, bind_ok (peekToken_append pos b hc.gap (r ++ u))]
  exact ho _ u hu

theorem steady_firstOfValue {f : Char → Reader α} (h : ∀ c v, Starts c v → Settles (f c) v) :
    Steady (firstOfValue >>= f) := by
  rw [firstOfValue, bind_assoc]
  exact steady_peekToken h

theorem Settles.placed {r : Reader α} {v : Text} (h : Settles r v) : Settles (placed r) v :=
  h.imp fun _ ho pos u hu => (ho pos u hu).placed

/-- A word is read where it stands. -/
theorem ends_ident (w : Text) (pos : Nat) (u : Text) :
    Ends (ident w ⟨pos, w ++ u⟩) (some ()) u := by
  induction w generalizing pos with
  | nil => exact ends_ok () pos u
  | cons c w ih =>
    rw [ident, List.cons_append, bind_ok (peek_cons _ _ _)]
    simp only [if_pos]
    rw [bind_ok (skip_cons _ _ _)]
    exact ih _

theorem ends_null (pos : Nat) (u : Text) :
    Ends ((skip >>= fun _ => ident "ull") ⟨pos, ("null" : Text) ++ u⟩) (some ()) u :=
  ends_ident "ull" _ u

/-! ## 2. Readers -/

/-- A reader of strings is steady. -/
theorem steady_text (expected : Text) : Steady (text expected) := by
  refine steady_firstOfValue fun c v hv => ?_
  by_cases hc : c = '"'
  · obtain ⟨ps, rfl⟩ := hv.string hc
    rw [if_pos hc]
    exact ⟨denoted? ps, fun pos u _ => ends_string ps pos u⟩
  · rw [if_neg hc]
    exact (gives_wrongKind expected).settles v

/-- A reader of whole numbers below a bound is steady. -/
theorem steady_natBelow (bound : Nat) (kind : Text) : Steady (natBelow bound kind) := by
  refine steady_firstOfValue fun c v hv => ?_
  by_cases hc : c = '-' ∨ c.isDigit = true
  · obtain ⟨n, rfl⟩ := hv.number hc
    rw [if_pos hc]
    refine (settles_signedNumber ?real (fun m => ?whole) n).placed
    case real =>
      rintro _ ⟨x, rfl⟩
      exact gives_refuse _ _
    case whole =>
      simp only
      split
      next => exact idle_pure _
      next => exact (gives_refuse _ _).idle
  · rw [if_neg hc]
    exact (gives_wrongKind kind).settles v

theorem steady_unit : Steady unit := by
  refine steady_firstOfValue fun c v hv => ?_
  by_cases hc : c = 'n'
  · obtain rfl := hv.null hc
    rw [if_pos hc]
    exact ⟨some (), fun pos u _ => ends_null pos u⟩
  · rw [if_neg hc]
    exact (gives_wrongKind _).settles v

/-- What is no null is read as what it may be. -/
theorem Reads.option {r : Reader α} {o : Option α} {c : Char} {w : Text}
    (h : Reads r (c :: w) o) (hgap : isGap c = false) (hc : c ≠ 'n') :
    Reads (Reader.option r) (c :: w) (o.map some) := by
  intro pos b u hu
  rw [Reader.option, List.cons_append, bind_ok (peekToken_append pos b hgap _),
    if_neg fun h => hc (Option.some.inj h)]
  exact (h.bare _ hu).map some

/-- A value that may be missing is read steadily where the value is. -/
theorem Steady.option {r : Reader α} (h : Steady r) : Steady (Reader.option r) := by
  refine steady_peekToken fun c v hv => ?_
  by_cases hc : c = 'n'
  · obtain rfl := hv.null hc
    rw [if_pos (congrArg some hc)]
    exact ⟨some none, fun pos u _ => (ends_null pos u).map fun _ => none⟩
  · rw [if_neg fun h => hc (Option.some.inj h)]
    exact ⟨_, fun pos u hu => ((h v hv.valid).bare pos hu).map some⟩

/-! ## 3. Any values -/

-- Whether a value is neither a truth value nor a string.
def IsOther (j : Json) : Prop := (∀ b, j ≠ .bool b) ∧ ∀ t, j ≠ .str t

theorem ends_word {f : α → Reader β} {q : Option β} {a : α} (c : Char) (w : Text)
    (hq : ∀ i, Ends (f a i) q i.rest) (pos : Nat) (u : Text) :
    Ends (((skip >>= fun _ => ident w >>= fun _ => Pure.pure a) >>= f) ⟨pos, c :: w ++ u⟩) q u := by
  rw [List.cons_append, bind_assoc, bind_ok (skip_cons _ _ _), bind_assoc]
  exact (ends_ident w _ u).bind_some fun pos => hq ⟨pos, u⟩

/-- What is made of a value by a reader that refuses all but truth values and strings. -/
theorem steady_value {f : Json → Reader α} (hf : ∀ j, IsOther j → Gives (f j) fun _ => False)
    (hq : ∀ j, Idle (f j)) (room : Nat) : Steady (value room >>= f) := by
  cases room with
  | zero => exact ((gives_failNext _ fun _ => False).bind fun _ h => h.elim).steady
  | succ room =>
    rw [value, bind_assoc]
    refine steady_peekToken fun c v hv => ?_
    simp only
    choose q hq using hq
    by_cases hquote : c = '"'
    · obtain ⟨ps, rfl⟩ := hv.string hquote
      refine ⟨(denoted? ps).bind fun t => q (.str t), fun pos u _ => ?_⟩
      subst hquote
      rw [if_neg (by decide), if_neg (by decide), if_neg (by decide), if_neg (by decide),
        if_pos rfl, bind_assoc]
      exact (ends_string ps pos u).bind fun t _ pos => hq (.str t) ⟨pos, u⟩
    by_cases hyes : c = 't'
    · obtain rfl := hv.yes hyes
      refine ⟨q (.bool true), fun pos u _ => ?_⟩
      subst hyes
      rw [if_neg (by decide), if_pos rfl]
      exact ends_word 't' "rue" (hq _) pos u
    by_cases hno : c = 'f'
    · obtain rfl := hv.no hno
      refine ⟨q (.bool false), fun pos u _ => ?_⟩
      subst hno
      rw [if_neg (by decide), if_neg (by decide), if_pos rfl]
      exact ends_word 'f' "alse" (hq _) pos u
    refine Gives.settles (Gives.bind (P := IsOther) ?_ hf) v
    rw [if_neg hyes, if_neg hno, if_neg hquote]
    refine .ite ?null (.ite ?number (.ite ?array (.ite ?object (gives_failNext _ _))))
    case null => exact .after fun _ => .after fun _ => gives_pure (by simp [IsOther])
    case number =>
      refine .after fun n => ?_
      cases n <;> exact gives_pure (by simp [IsOther])
    case array =>
      refine .ite (gives_failNext _ _) (.after fun _ => .after fun _ => .after fun _ => ?_)
      exact gives_pure (by simp [IsOther])
    case object =>
      refine .ite (gives_failNext _ _) (.after fun _ => .after fun _ => .after fun _ => ?_)
      exact gives_pure (by simp [IsOther])

end Baselines.Json.Reader
