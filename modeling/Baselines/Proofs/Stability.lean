import Baselines.Stability
import Mathlib.Data.Nat.Find

/-!
# Runs of a stability check

An emitter may answer differently each time, and may change the disk each time. A check stops at the
first run that fails or gives other code than the first one, and it asks once for each run.
-/

namespace Baselines.Stability

variable {τ : Type} {ask : τ → Answer × τ} {s : τ} {first : Text}

/-! ## 1. Runs -/

/-- What is there after so many runs. -/
def after (ask : τ → Answer × τ) : Nat → τ → τ
  | 0, s => s
  | n + 1, s => after ask n (ask s).2

/-- The answer of a run; the first one has the number one. -/
def answerOf (ask : τ → Answer × τ) (s : τ) (run : Nat) : Answer := (ask (after ask (run - 1) s)).1

/-- A run succeeds, and so did the first one, with the same code. -/
def Agrees (ask : τ → Answer × τ) (s : τ) (run : Nat) : Prop :=
  ∃ first, answerOf ask s 1 = .ok first ∧ answerOf ask s run = .ok first

/-- The least of so many runs that fails or gives other code than the first one. -/
structure Breaks (ask : τ → Answer × τ) (s : τ) (runs run : Nat) : Prop where
  pos : 1 ≤ run
  le : run ≤ runs
  earlier : ∀ k, 1 ≤ k → k < run → Agrees ask s k
  breaks : ¬ Agrees ask s run

/-- Each of so many runs gives this code. -/
def Steady (ask : τ → Answer × τ) (s : τ) (runs : Nat) (first : Text) : Prop :=
  ∀ k, 1 ≤ k → k ≤ runs → answerOf ask s k = .ok first

/-- What so many runs come to, and how many of them are made. -/
inductive Comes (ask : τ → Answer × τ) (s : τ) (runs : Nat) :
    Except Instability Text → Nat → Prop where
  | steady {first : Text} (h : Steady ask s runs first) : Comes ask s runs (.ok first) runs
  | failed {k : Nat} {fault : EmitFault} (hb : Breaks ask s runs k)
      (h : answerOf ask s k = .error fault) : Comes ask s runs (.error (.emit fault)) k
  | diverged {k : Nat} {first code : Text} (hb : Breaks ask s runs k)
      (h₁ : answerOf ask s 1 = .ok first) (h : answerOf ask s k = .ok code) :
      Comes ask s runs
        (.error (.diverged k (Diff.unified first code Diff.usualContext).1)) k

theorem answerOf_one (ask : τ → Answer × τ) (s : τ) : answerOf ask s 1 = (ask s).1 := rfl

theorem answerOf_add_two (ask : τ → Answer × τ) (s : τ) (n : Nat) :
    answerOf ask s (n + 2) = answerOf ask (ask s).2 (n + 1) := rfl

/-- Runs that do not all agree have a first one that does not. -/
theorem exists_breaks {runs : Nat} (hr : 1 ≤ runs) (h : ¬ ∃ first, Steady ask s runs first) :
    ∃ k, Breaks ask s runs k := by
  classical
  have hex : ∃ k, 1 ≤ k ∧ k ≤ runs ∧ ¬ Agrees ask s k := by
    by_contra hall
    simp only [not_exists, not_and, not_not] at hall
    obtain ⟨first, h₁, -⟩ := hall 1 (Nat.le_refl 1) hr
    refine h ⟨first, fun k hk hle => ?_⟩
    obtain ⟨code, hcode, hkth⟩ := hall k hk hle
    rw [h₁, Except.ok.injEq] at hcode
    rw [hkth, hcode]
  obtain ⟨hpos, hle, hbreaks⟩ := Nat.find_spec hex
  refine ⟨Nat.find hex, hpos, hle, fun k hk hlt => ?_, hbreaks⟩
  by_contra hn
  exact Nat.find_min hex hlt ⟨hk, by omega, hn⟩

/-! ## 2. Asking again -/

/-- What is said of a run that does not give the code of the first one. -/
def instability (first : Text) (run : Nat) : Answer → Instability
  | .error fault => .emit fault
  | .ok code => .diverged run (Diff.unified first code Diff.usualContext).1

theorem askAgain_succ_same {n run : Nat} (h : answerOf ask s 1 = .ok first) :
    askAgain ask first (n + 1) run s = askAgain ask first n (run + 1) (ask s).2 := by
  rw [answerOf_one] at h
  rw [askAgain]
  rcases ha : ask s with ⟨a, t⟩
  rw [ha] at h
  obtain rfl := h
  simp only [if_true]

theorem askAgain_succ_other {n run : Nat} (h : answerOf ask s 1 ≠ .ok first) :
    askAgain ask first (n + 1) run s =
      (.error (instability first run (answerOf ask s 1)), after ask 1 s) := by
  rw [answerOf_one] at h ⊢
  rw [askAgain, after, after]
  rcases ha : ask s with ⟨a, t⟩
  rw [ha] at h
  cases a with
  | error fault => rfl
  | ok code =>
    have hne : code ≠ first := fun he => h (by rw [he])
    simp only [if_neg hne]
    rfl

theorem askAgain_steady {n run : Nat} (h : Steady ask s n first) :
    askAgain ask first n run s = (.ok first, after ask n s) := by
  induction n generalizing run s with
  | zero => rfl
  | succ n ih =>
    rw [askAgain_succ_same (h 1 (Nat.le_refl 1) (by omega)), after]
    refine ih fun k hk hle => ?_
    obtain ⟨m, rfl⟩ := Nat.exists_eq_add_of_le' hk
    exact h (m + 2) (by omega) (by omega)

/-- The runs up to the first one that gives something else are all that are made. -/
theorem askAgain_breaks {n run k : Nat} (hk : k < n) (hs : Steady ask s k first)
    (hb : answerOf ask s (k + 1) ≠ .ok first) :
    askAgain ask first n run s =
      (.error (instability first (run + k) (answerOf ask s (k + 1))), after ask (k + 1) s) := by
  -- induction on the number of the run; each one before it gives the code and is passed over
  induction k generalizing n run s with
  | zero =>
    obtain ⟨m, rfl⟩ := Nat.exists_eq_add_of_le' hk
    exact askAgain_succ_other hb
  | succ k ih =>
    obtain ⟨m, rfl⟩ : ∃ m, n = m + 1 := ⟨n - 1, by omega⟩
    rw [askAgain_succ_same (hs 1 (Nat.le_refl 1) (by omega)), answerOf_add_two]
    have hsteady : Steady ask (ask s).2 k first := by
      intro j hj hle
      obtain ⟨i, rfl⟩ := Nat.exists_eq_add_of_le' hj
      exact hs (i + 2) (by omega) (by omega)
    rw [ih (by omega) hsteady hb, Nat.add_right_comm, Nat.add_assoc]
    rfl

/-! ## 3. Checks -/

theorem check_of_ok {runs : Nat} (h : answerOf ask s 1 = .ok first) :
    check ask runs s = askAgain ask first (max runs 2 - 1) 2 (ask s).2 := by
  rw [answerOf_one] at h
  rw [check]
  rcases ha : ask s with ⟨a, t⟩
  rw [ha] at h
  obtain rfl := h
  rfl

theorem check_of_error {runs : Nat} {fault : EmitFault} (h : answerOf ask s 1 = .error fault) :
    check ask runs s = (.error (.emit fault), after ask 1 s) := by
  rw [answerOf_one] at h
  rw [check, after, after]
  rcases ha : ask s with ⟨a, t⟩
  rw [ha] at h
  obtain rfl := h
  rfl

theorem check_steady {runs : Nat} (h : Steady ask s (max 2 runs) first) :
    check ask runs s = (.ok first, after ask (max 2 runs) s) := by
  have hr : max 2 runs = (max runs 2 - 1) + 1 := by omega
  rw [check_of_ok (h 1 (Nat.le_refl 1) (by omega)), hr, after]
  refine askAgain_steady fun k hk hle => ?_
  obtain ⟨m, rfl⟩ := Nat.exists_eq_add_of_le' hk
  exact h (m + 2) (by omega) (by omega)

-- A run after the first one that breaks, behind runs that give the code.
theorem check_breaks {runs k : Nat} (hb : Breaks ask s (max 2 runs) (k + 2))
    (h₁ : answerOf ask s 1 = .ok first) :
    check ask runs s =
      (.error (instability first (k + 2) (answerOf ask s (k + 2))), after ask (k + 2) s) := by
  have hle := hb.le
  have hsteady : Steady ask (ask s).2 k first := by
    intro j hj hjk
    obtain ⟨i, rfl⟩ := Nat.exists_eq_add_of_le' hj
    obtain ⟨code, hcode, hith⟩ := hb.earlier (i + 2) (by omega) (by omega)
    rw [h₁, Except.ok.injEq] at hcode
    rw [← answerOf_add_two, hith, hcode]
  have hother : answerOf ask (ask s).2 (k + 1) ≠ .ok first := fun he =>
    hb.breaks ⟨first, h₁, he⟩
  rw [check_of_ok h₁, askAgain_breaks (by omega) hsteady hother, Nat.add_comm 2 k]
  rfl

theorem Breaks.eq_one_or {runs k : Nat} (hb : Breaks ask s runs k) : k = 1 ∨ ∃ m, k = m + 2 := by
  obtain hone | hlt := Nat.eq_or_lt_of_le hb.pos
  · exact Or.inl hone.symm
  · exact Or.inr ⟨k - 2, by omega⟩

/-- A check comes to what its runs come to, and makes so many of them. -/
theorem check_of_comes {runs k : Nat} {x : Except Instability Text}
    (h : Comes ask s (max 2 runs) x k) : check ask runs s = (x, after ask k s) := by
  cases h with
  | steady h => exact check_steady h
  | @failed _ fault hb h =>
    obtain rfl | ⟨m, rfl⟩ := hb.eq_one_or
    · exact check_of_error h
    · obtain ⟨first, h₁, -⟩ := hb.earlier 1 (Nat.le_refl 1) (by omega)
      rw [check_breaks hb h₁, h]
      rfl
  | @diverged _ first code hb h₁ h =>
    obtain rfl | ⟨m, rfl⟩ := hb.eq_one_or
    · -- the first run agrees with itself
      exact absurd ⟨code, h, h⟩ hb.breaks
    · rw [check_breaks hb h₁, h]
      rfl

-- A run that breaks and still succeeds comes after a first one that succeeded.
theorem Breaks.first_ok {runs k : Nat} {code : Text} (hb : Breaks ask s runs k)
    (h : answerOf ask s k = .ok code) : ∃ first, answerOf ask s 1 = .ok first := by
  obtain hone | hlt := Nat.eq_or_lt_of_le hb.pos
  · exact ⟨code, hone ▸ h⟩
  · obtain ⟨first, h₁, -⟩ := hb.earlier 1 (Nat.le_refl 1) hlt
    exact ⟨first, h₁⟩

theorem exists_comes {runs : Nat} (hr : 1 ≤ runs) : ∃ x k, Comes ask s runs x k := by
  by_cases hsteady : ∃ first, Steady ask s runs first
  · obtain ⟨first, h⟩ := hsteady
    exact ⟨_, _, .steady h⟩
  · obtain ⟨k, hb⟩ := exists_breaks hr hsteady
    cases hk : answerOf ask s k with
    | error fault => exact ⟨_, _, .failed hb hk⟩
    | ok code =>
      obtain ⟨first, h₁⟩ := hb.first_ok hk
      exact ⟨_, _, .diverged hb h₁ hk⟩

/-! ## 4. Requests -/

variable {σ : Type}

/-- What is there after so many runs of one request, with the requests that the emitter has got. -/
def requested (e : Emitter σ) (request : Request) (s : σ × Disk) (runs : Nat) :
    (σ × List Request) × Disk :=
  let reached := after (e.emit request) runs s
  ((reached.1, List.replicate runs request), reached.2)

theorem after_recording (e : Emitter σ) (request : Request) (s : σ × Disk) (seen : List Request)
    (n : Nat) : after (e.recording.emit request) n ((s.1, seen), s.2) =
      (((after (e.emit request) n s).1, seen ++ List.replicate n request),
        (after (e.emit request) n s).2) := by
  induction n generalizing s seen with
  | zero => rw [after, after, List.replicate_zero, List.append_nil]
  | succ n ih =>
    rw [after, after, List.replicate_succ, List.append_cons]
    exact ih (e.emit request s).2 (seen ++ [request])

theorem answerOf_recording (e : Emitter σ) (request : Request) (s : σ × Disk) (k : Nat) :
    answerOf (e.recording.emit request) ((s.1, []), s.2) k = answerOf (e.emit request) s k := by
  unfold answerOf
  rw [after_recording]
  rfl

theorem Comes.recording {e : Emitter σ} {request : Request} {s : σ × Disk} {runs k : Nat}
    {x : Except Instability Text} (h : Comes (e.emit request) s runs x k) :
    Comes (e.recording.emit request) ((s.1, []), s.2) runs x k := by
  have hb : Breaks (e.emit request) s runs k →
      Breaks (e.recording.emit request) ((s.1, []), s.2) runs k := by
    rintro ⟨hpos, hle, hearlier, hbreaks⟩
    refine ⟨hpos, hle, ?_, ?_⟩
    · simpa only [Agrees, answerOf_recording] using hearlier
    · simpa only [Agrees, answerOf_recording] using hbreaks
  cases h with
  | steady h => exact .steady fun j hj hle => by rw [answerOf_recording, h j hj hle]
  | failed hbreaks h => exact .failed (hb hbreaks) (by rw [answerOf_recording, h])
  | diverged hbreaks h₁ h =>
    exact .diverged (hb hbreaks) (by rw [answerOf_recording, h₁]) (by rw [answerOf_recording, h])

/-- A check of so many runs, and two at least, gives the code of the first run after all of them
where each gives that code. Otherwise it ends at the least run that fails or gives other code: with
the fault, or with the number of the run and the difference between the first code and its own. The
emitter has then got the request once for each of these runs and nothing else. -/
theorem check_eq_iff (e : Emitter σ) (request : Request) (runs : Nat) (s : σ × Disk)
    (x : Except Instability Text) (t : (σ × List Request) × Disk) :
    check (e.recording.emit request) runs ((s.1, []), s.2) = (x, t) ↔
      ∃ k, Comes (e.emit request) s (max 2 runs) x k ∧ t = requested e request s k := by
  have key : ∀ {y : Except Instability Text} {k : Nat},
      Comes (e.emit request) s (max 2 runs) y k →
      check (e.recording.emit request) runs ((s.1, []), s.2) = (y, requested e request s k) := by
    intro y k h
    rw [check_of_comes h.recording, after_recording]
    rfl
  constructor
  · intro h
    obtain ⟨y, k, hy⟩ : ∃ y k, Comes (e.emit request) s (max 2 runs) y k :=
      exists_comes (by omega)
    rw [key hy, Prod.mk.injEq] at h
    exact ⟨k, h.1 ▸ hy, h.2.symm⟩
  · rintro ⟨k, hk, rfl⟩
    exact key hk

-- Of five runs the third fails, so two are not made.
example : check (fun n : Nat => (if n < 2 then .ok "a" else .error (.said "x"), n + 1)) 5 0 =
    (.error (.emit (.said "x")), 3) := rfl

end Baselines.Stability
