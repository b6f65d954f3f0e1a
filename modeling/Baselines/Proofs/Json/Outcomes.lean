import Baselines.Json.Shape
import Baselines.Proofs.Json.Grammar

/-!
# What readers make of values

A reader is steady if it makes the same of a value wherever the value stands: it refuses, or it
gives something and has then passed the value and no more. Where a reader refuses and with which
cause is not looked at.
-/

namespace Baselines.Json.Reader

variable {α β γ : Type} {r : Reader α} {f : α → Reader β} {i : Input} {o : Option α}
variable {p : Except Misread α × Input} {t u v : Text}

/-! ## 1. Steps -/

theorem bind_apply (r : Reader α) (f : α → Reader β) (i : Input) : (r >>= f) i =
    match r i with
    | (.ok a, i) => f a i
    | (.error e, i) => (.error e, i) := rfl

theorem bind_ok {a : α} {j : Input} (h : r i = (.ok a, j)) : (r >>= f) i = f a j := by
  rw [bind_apply, h]

theorem bind_congr {r' : Reader α} {j : Input} (h : r i = r' j) (f : α → Reader β) :
    (r >>= f) i = (r' >>= f) j := by
  rw [bind_apply, h, ← bind_apply]

/-- Readers in turn may be grouped either way. -/
theorem bind_assoc (r : Reader α) (f : α → Reader β) (g : β → Reader γ) :
    (r >>= f) >>= g = r >>= fun a => f a >>= g := by
  funext i
  simp only [bind_apply]
  rcases r i with ⟨_ | _, j⟩ <;> rfl

theorem pure_apply (a : α) (i : Input) : (Pure.pure a : Reader α) i = (.ok a, i) := rfl

theorem peek_apply (i : Input) : peek i = (.ok i.rest.head?, i) := rfl

theorem peek_cons (pos : Nat) (c : Char) (t : Text) :
    peek ⟨pos, c :: t⟩ = (.ok (some c), ⟨pos, c :: t⟩) := rfl

theorem unread_apply (i : Input) : unread i = (.ok i.rest, i) := rfl

theorem skip_cons (pos : Nat) (c : Char) (t : Text) :
    skip ⟨pos, c :: t⟩ = (.ok (), ⟨pos + (Encoding.utf8Char c).length, t⟩) := rfl

/-! ## 2. Endings -/

/-- How a reading ends: with a value and the text that is left, or with a refusal. -/
def Ends (p : Except Misread α × Input) (o : Option α) (left : Text) : Prop :=
  match o with
  | some a => ∃ pos, p = (.ok a, ⟨pos, left⟩)
  | none => ∃ e j, p = (.error e, j)

theorem ends_ok (a : α) (pos : Nat) (t : Text) : Ends (.ok a, ⟨pos, t⟩) (some a) t := ⟨pos, rfl⟩

/-- How a reading ends tells what it gives. -/
theorem Ends.toOption_eq (h : Ends p o t) : p.1.toOption = o := by
  cases o with
  | some a =>
    obtain ⟨pos, rfl⟩ := h
    rfl
  | none =>
    obtain ⟨e, j, rfl⟩ := h
    rfl

/-- A reader that gives a value hands it, and the rest, to the next. -/
theorem Ends.bind_some {a : α} {q : Option β} (h : Ends (r i) (some a) t)
    (hf : ∀ pos, Ends (f a ⟨pos, t⟩) q u) : Ends ((r >>= f) i) q u := by
  obtain ⟨pos, hr⟩ := h
  rw [bind_ok hr]
  exact hf pos

/-- A reader that gives nothing stops those behind it. -/
theorem Ends.bind_none (h : Ends (r i) none t) (f : α → Reader β) (u : Text) :
    Ends ((r >>= f) i) none u := by
  obtain ⟨e, j, hr⟩ := h
  exact ⟨e, j, by rw [bind_apply, hr]⟩

/-- Readers in turn give what the values of the one make of the other. -/
theorem Ends.bind {g : α → Option β} (h : Ends (r i) o t)
    (hf : ∀ a ∈ o, ∀ pos, Ends (f a ⟨pos, t⟩) (g a) u) : Ends ((r >>= f) i) (o.bind g) u := by
  cases o with
  | some a => exact h.bind_some (hf a rfl)
  | none => exact h.bind_none f u

theorem Ends.map (h : Ends (r i) o t) (g : α → β) :
    Ends ((r >>= fun a => Pure.pure (g a)) i) (o.map g) t := by
  rw [Option.map_eq_bind]
  exact h.bind fun a _ pos => ends_ok (g a) pos t

/-- Naming the place of a fault changes no outcome. -/
theorem Ends.placed (h : Ends (r i) o t) : Ends (placed r i) o t := by
  cases o with
  | some a =>
    obtain ⟨pos, hr⟩ := h
    exact ⟨pos, by rw [Reader.placed, hr]⟩
  | none =>
    obtain ⟨⟨cause, place⟩, j, hr⟩ := h
    cases place with
    | none => exact ⟨_, j, by rw [Reader.placed, hr]⟩
    | some n => exact ⟨_, j, by rw [Reader.placed, hr]⟩

/-- It makes no difference to the ending that brackets are closed even after a refusal. -/
theorem Ends.closedBy {close : Reader Unit}
    (h : Ends ((r >>= fun a => close >>= fun _ => Pure.pure a) i) o t) :
    Ends (closedBy close r i) o t := by
  rw [bind_apply] at h
  rw [Reader.closedBy]
  rcases hr : r i with ⟨e | a, j⟩
  · rw [hr] at h
    cases o with
    | some a =>
      obtain ⟨pos, h⟩ := h
      simp at h
    | none => exact ⟨_, _, rfl⟩
  · rw [hr] at h
    simp only [bind_apply] at h ⊢
    rcases hc : close j with ⟨_ | _, k⟩
    all_goals
      rw [hc] at h
      exact h

/-- What is closed by a mark ends behind the mark. -/
theorem Ends.closed {close : Reader Unit} (h : Ends (r i) o t)
    (hc : ∀ pos, Ends (close ⟨pos, t⟩) (some ()) u) : Ends (Reader.closedBy close r i) o u := by
  refine Ends.closedBy ?_
  cases o with
  | some a => exact h.bind_some fun pos => (hc pos).bind_some fun pos => ends_ok a pos u
  | none => exact h.bind_none _ u

/-! ## 3. Readers that give values of one kind only -/

/-- A reader that gives no values but those with a property. -/
def Gives (r : Reader α) (P : α → Prop) : Prop := ∀ i a j, r i = (.ok a, j) → P a

theorem Gives.ends (h : Gives r fun _ => False) (i : Input) (t : Text) : Ends (r i) none t := by
  rcases hr : r i with ⟨e | a, j⟩
  · exact ⟨e, j, rfl⟩
  · exact (h i a j hr).elim

/-- Two readers in turn give what the second gives of the values of the first. -/
theorem Gives.bind {P : α → Prop} {Q : β → Prop} (h : Gives r P)
    (hf : ∀ a, P a → Gives (f a) Q) : Gives (r >>= f) Q := by
  intro i b k hb
  rw [bind_apply] at hb
  split at hb
  next a j hr => exact hf a (h i a j hr) j b k hb
  next => simp at hb

theorem Gives.after {Q : β → Prop} (hf : ∀ a, Gives (f a) Q) : Gives (r >>= f) Q :=
  Gives.bind (P := fun _ => True) (fun _ _ _ _ => trivial) fun a _ => hf a

theorem Gives.ite {P : α → Prop} {s : Reader α} {c : Prop} [Decidable c] (hr : Gives r P)
    (hs : Gives s P) : Gives (if c then r else s) P := by
  split
  next => exact hr
  next => exact hs

theorem gives_pure {P : α → Prop} {a : α} (h : P a) : Gives (Pure.pure a) P := by
  rintro i b j ⟨⟩
  exact h

theorem gives_refuse (cause : Cause) (P : α → Prop) : Gives (refuse cause) P := by
  rintro i a j ⟨⟩

theorem gives_failHere (cause : Cause) (P : α → Prop) : Gives (failHere cause) P := by
  rintro i a j ⟨⟩

theorem gives_failNext (cause : Cause) (P : α → Prop) : Gives (failNext cause) P := by
  rintro i a j ⟨⟩

theorem Gives.placed (h : Gives r fun _ => False) : Gives (placed r) fun _ => False := by
  intro i a j hr
  have hp := (h.ends i []).placed.toOption_eq
  rw [hr] at hp
  simp [Except.toOption] at hp

/-- A value of another kind than the expected one is refused. -/
theorem gives_wrongKind (expected : Text) :
    Gives (wrongKind expected : Reader α) fun _ => False := by
  have hword (w e : Text) : Gives (skip >>= fun _ => ident w >>= fun _ =>
      (refuse (.wrongType e expected) : Reader α)) fun _ => False :=
    .after fun _ => .after fun _ => gives_refuse _ _
  refine Gives.placed (.after fun c => ?_)
  cases c with
  | none => exact gives_failNext _ _
  | some c =>
    refine .ite (hword _ _) (.ite (hword _ _) (.ite (hword _ _) (.ite (.after fun n => ?_) ?_)))
    · cases n <;> exact gives_refuse _ _
    · exact .ite (.after fun _ => gives_refuse _ _)
        (.ite (gives_refuse _ _) (.ite (gives_refuse _ _) (gives_failNext _ _)))

/-! ## 4. What stands around a value -/

/-- What may follow a value or a name: nothing, a blank, a mark between values, or the end of an
array or object. -/
def Follows (u : Text) : Prop :=
  ∀ c ∈ u.head?, isGap c = true ∨ c = ',' ∨ c = ':' ∨ c = ']' ∨ c = '}'

theorem follows_nil : Follows [] := by
  rintro c ⟨⟩

/-- A gap before what follows a value follows it too. -/
theorem Follows.append {b : Gap} (h : Follows u) : Follows (b ++ u) := by
  obtain ⟨_ | ⟨c, b⟩, hb⟩ := b
  · exact h
  · rintro d ⟨⟩
    exact .inl (hb c List.mem_cons_self)

theorem peekToken_apply (i : Input) :
    let blanks := (i.rest.takeWhile isGap).length
    peekToken i = (.ok (i.rest.drop blanks).head?, ⟨i.pos + blanks, i.rest.drop blanks⟩) := rfl

/-- The next token is found behind a gap. -/
theorem peekToken_append (pos : Nat) (b : Gap) {c : Char} (h : isGap c = false) (t : Text) :
    peekToken ⟨pos, b ++ (c :: t)⟩ = (.ok (some c), ⟨pos + b.1.length, c :: t⟩) := by
  have hb : (b ++ (c :: t)).takeWhile isGap = b := by
    rw [List.takeWhile_append_of_pos b.2, List.takeWhile_cons_of_neg (by simp [h]),
      List.append_nil]
  simp only [peekToken_apply, hb, List.drop_left, List.head?_cons]

theorem peekToken_cons (pos : Nat) {c : Char} (h : isGap c = false) (t : Text) :
    peekToken ⟨pos, c :: t⟩ = (.ok (some c), ⟨pos, c :: t⟩) :=
  peekToken_append pos noGap h t

theorem peekToken_gap (pos : Nat) (b : Gap) :
    peekToken ⟨pos, b.1⟩ = (.ok none, ⟨pos + b.1.length, []⟩) := by
  have hb : b.1.takeWhile isGap = b := List.takeWhile_eq_self_iff.2 b.2
  simp only [peekToken_apply, hb, List.drop_length, List.head?_nil]

theorem firstOfValue_append (pos : Nat) (b : Gap) {c : Char} (h : isGap c = false) (t : Text) :
    firstOfValue ⟨pos, b ++ (c :: t)⟩ = (.ok c, ⟨pos + b.1.length, c :: t⟩) := by
  rw [firstOfValue, bind_ok (peekToken_append pos b h t)]
  rfl

/-! ## 5. Steady readers -/

/-- What a reader makes of a text that stands alone. -/
def alone (r : Reader α) (v : Text) : Option α := (r ⟨0, v⟩).1.toOption

/-- That a reader makes `o` of a value wherever the value stands. -/
def Reads (r : Reader α) (v : Text) (o : Option α) : Prop :=
  ∀ pos (b : Gap) (u : Text), Follows u → Ends (r ⟨pos, b ++ (v ++ u)⟩) o u

/-- That what a reader makes of a text, without blanks before it, is the same wherever it stands. -/
def Settles (r : Reader α) (v : Text) : Prop :=
  ∃ o, ∀ pos u, Follows u → Ends (r ⟨pos, v ++ u⟩) o u

/-- A reader that reads nothing, and ends alike at every place. -/
def Idle (r : Reader α) : Prop := ∃ o, ∀ i, Ends (r i) o i.rest

/-- A reader that makes of every value, wherever it stands, what it makes of it alone. -/
def Steady (r : Reader α) : Prop := ∀ v, IsValue v → Reads r v (alone r v)

/-- A reader of a value reads it where no gap is before it. -/
theorem Reads.bare (h : Reads r v o) (pos : Nat) (hu : Follows u) :
    Ends (r ⟨pos, v ++ u⟩) o u := h pos noGap u hu

theorem Reads.alone_eq (h : Reads r v o) : alone r v = o := by
  have ha := h.bare 0 follows_nil
  rw [List.append_nil] at ha
  exact ha.toOption_eq

/-- A reader that has an outcome for each value is steady. -/
theorem steady_of (h : ∀ v, IsValue v → ∃ o, Reads r v o) : Steady r := by
  intro v hv
  obtain ⟨o, ho⟩ := h v hv
  rwa [ho.alone_eq]

/-- A reader that refuses everything is steady. -/
theorem Gives.steady (h : Gives r fun _ => False) : Steady r :=
  steady_of fun _ _ => ⟨none, fun _ _ u _ => h.ends _ u⟩

theorem Gives.settles (h : Gives r fun _ => False) (v : Text) : Settles r v :=
  ⟨none, fun _ u _ => h.ends _ u⟩

theorem Gives.idle (h : Gives r fun _ => False) : Idle r := ⟨none, fun i => h.ends i i.rest⟩

theorem idle_pure (a : α) : Idle (Pure.pure a : Reader α) :=
  ⟨some a, fun i => ends_ok a i.pos i.rest⟩

/-- A function of what is read changes nothing in how it is read. -/
theorem Reads.map (h : Reads r v o) (g : α → β) :
    Reads (r >>= fun a => Pure.pure (g a)) v (o.map g) :=
  fun pos b u hu => (h pos b u hu).map g

theorem Steady.map (h : Steady r) (g : α → β) : Steady (r >>= fun a => Pure.pure (g a)) :=
  steady_of fun v hv => ⟨_, (h v hv).map g⟩

theorem Steady.placed (h : Steady r) : Steady (placed r) :=
  steady_of fun v hv => ⟨_, fun pos b u hu => (h v hv pos b u hu).placed⟩

theorem Steady.then (h : Steady r) (hf : ∀ a, Idle (f a)) : Steady (r >>= f) := by
  choose g hg using hf
  exact steady_of fun v hv => ⟨(alone r v).bind g, fun pos b u hu =>
    (h v hv pos b u hu).bind fun a _ pos => hg a ⟨pos, u⟩⟩

end Baselines.Json.Reader
