import Baselines.Proofs.Json.Passing

/-!
# Readers of choices and records

What a record is read as from an object is what its fields make in turn: a known field is filled
once, and a field by another name is refused or passed over.
-/

namespace Baselines.Json.Reader

variable {α σ : Type} {u v : Text}

/-! ## 1. Choices -/

theorem steady_choiceName (known : List (Text × α)) : Steady (choiceName known) := by
  refine ((steady_text _).then fun t => ?_).placed
  cases known.find? (·.1 = t) with
  | some p => exact idle_pure _
  | none => exact (gives_refuse _ _).idle

theorem choiceName_end (known : List (Text × α)) (pos : Nat) (gap : Gap) (t u : Text) :
    Ends (choiceName known ⟨pos, gap ++ '}' :: t⟩) none u := by
  refine Ends.placed (Ends.bind_none (t := u) ?_ _ u)
  rw [text, bind_ok (firstOfValue_append pos gap rfl t)]
  exact (gives_wrongKind _).ends _ u

theorem steady_choice (room : Nat) (known : List (Text × α)) : Steady (choice room known) := by
  refine steady_firstOfValue fun c v hv => ?_
  by_cases hc : c = '"'
  · rw [if_pos hc]
    exact ⟨_, fun pos u hu => (steady_choiceName known v hv.valid).bare pos hu⟩
  rw [if_neg hc]
  by_cases hc : c = '{'
  · obtain ⟨gap, ms, rfl, hms⟩ := hv.object hc
    rw [if_pos hc]
    refine settles_nested room fun room => ?_
    cases ms with
    | nil =>
      refine ⟨none, fun pos u _ => ?_⟩
      rw [objectText_append, bind_ok (skip_cons _ _ _)]
      exact (choiceName_end known _ gap u []).bind_none _ u
    | cons m ms =>
      have hname := steady_choiceName known _ (.string m.name)
      have hnull := steady_unit m.value (hms m List.mem_cons_self)
      refine ⟨(alone (choiceName known) (quoted m.name)).bind fun a =>
        (alone unit m.value).bind fun _ => if ms = [] then some a else none, fun pos u _ => ?_⟩
      rw [objectText_append, bind_ok (skip_cons _ _ _), List.map_cons, spread_true_cons,
        show m.part.core = m.core from rfl, Member.core_append]
      refine (hname _ m.before _ (follows_colon m.middle _)).bind fun a _ pos => ?_
      refine (ends_colon pos m.middle _).bind_some fun pos => ?_
      refine (hnull pos m.lead _ (Follows.spread (.inr rfl))).bind fun _ _ pos => ?_
      cases ms with
      | nil =>
        rw [List.map_nil, spread, bind_ok (peekToken_append pos _ rfl u), if_pos rfl]
        exact ends_ok _ _ _
      | cons m' ms =>
        rw [List.map_cons, spread_false_cons, bind_ok (peekToken_append pos _ rfl _),
          if_neg (by simp)]
        exact (gives_failHere _ _).ends _ u
  · rw [if_neg hc]
    exact (gives_failNext _ _).settles v

/-! ## 2. Fields of records -/

/-- What a field of an object adds to the fields that have been filled. -/
def Shape.step (s : Shape σ) (room : Nat) (m : Member) (before : List Text × σ) :
    Option (List Text × σ) :=
  m.key?.bind fun name =>
    match s.fields.find? (·.name = name) with
    | some f =>
      if before.1.contains name then none
      else (alone (f.fill room before.2) m.value).map fun filled => (name :: before.1, filled)
    | none => if s.closed then none else some before

/-- The record that the fields of an object make. -/
def Shape.made (s : Shape σ) (room : Nat) (empty : σ) (ms : List Member) : Option σ :=
  (ms.foldlM (fun before m => s.step room m before) ([], empty)).bind fun p =>
    match s.fields.find? fun f => !f.optional && !p.1.contains f.name with
    | some _ => none
    | none => some p.2

/-- A record whose fields are filled alike wherever their values stand. -/
def Shape.Steady (s : Shape σ) : Prop :=
  ∀ f ∈ s.fields, ∀ room before, Reader.Steady (f.fill room before)

theorem takes_fillNamed {s : Shape σ} (hs : s.Steady) (room : Nat) {m : Member}
    (hm : IsValue m.value) : Takes (s.fillNamed room) m (s.step room m) := by
  refine takes_of_name fun name before pos u hu => ?_
  rw [Shape.fillNamed]
  cases hf : s.fields.find? (·.name = name) with
  | some f =>
    simp only
    split
    next => exact (gives_refuse _ _).ends _ u
    next =>
      have hfill := hs f (List.mem_of_find?_eq_some hf) room before.2 m.value hm
      exact (ends_colon pos m.middle _).bind_some fun pos => (hfill pos m.lead u hu).map _
  | none =>
    simp only
    split
    next => exact (gives_refuse _ _).ends _ u
    next =>
      refine (ends_colon pos m.middle _).bind_some fun pos => ?_
      exact (reads_passValue hm pos m.lead u hu).bind_some fun pos => ends_ok before pos u

theorem ends_ofObject {s : Shape σ} (hs : s.Steady) (room : Nat) (empty : σ) (gap : Gap)
    {ms : List Member} (hms : ∀ m ∈ ms, IsValue m.value) (pos : Nat) (u : Text) :
    Ends (s.ofObject room empty ⟨pos, spread true gap (ms.map Member.part) ++ '}' :: u⟩)
      (s.made room empty ms) ('}' :: u) := by
  have hlong : ms.length < (spread true gap (ms.map Member.part) ++ '}' :: u).length + 1 := by
    have := length_members_le gap ms
    rw [List.length_append]
    omega
  rw [Shape.ofObject, bind_ok (unread_apply _)]
  refine (ends_fields true gap u ms (fun m hm => takes_fillNamed hs room (hms m hm)) hlong _ _).bind
    fun p _ pos => ?_
  simp only
  cases s.fields.find? fun f => !f.optional && !p.1.contains f.name with
  | some f => exact (gives_refuse _ _).ends _ _
  | none => exact ends_ok p.2 pos _

theorem ends_record_object {s : Shape σ} (hs : s.Steady) (room : Nat) (empty : σ) (gap : Gap)
    {ms : List Member} (hms : ∀ m ∈ ms, IsValue m.value) (pos : Nat) (u : Text) :
    Ends ((skip >>= fun _ => placed (closedBy endOfObject (s.ofObject room empty)))
      ⟨pos, objectText gap ms ++ u⟩) (s.made room empty ms) u := by
  rw [objectText_append, bind_ok (skip_cons _ _ _)]
  exact ((ends_ofObject hs room empty gap hms _ u).closed fun pos => ends_endOfObject pos u).placed

/-- A record is read from an object as what the fields of the object make. -/
theorem reads_record {s : Shape σ} (hs : s.Steady) (room : Nat) (empty : σ) (gap : Gap)
    {ms : List Member} (hms : ∀ m ∈ ms, IsValue m.value) :
    Reads (record (room + 2) s empty) (objectText gap ms) (s.made (room + 1) empty ms) := by
  intro pos b u _
  have hstart : objectText gap ms ++ u = '{' :: _ := objectText_append gap ms u
  rw [record, hstart, bind_ok (firstOfValue_append pos b rfl _), ← hstart]
  exact ends_record_object hs (room + 1) empty gap hms _ u

/-! ## 3. Records from arrays -/

/-- A list does not end where another item follows. -/
theorem endOfList_spread {first : Bool} {gap : Gap} {x : Item} {ps : List Part}
    (hx : IsValue x.value) (pos : Nat) (t u : Text) :
    Ends (endOfList ⟨pos, spread first gap (x.part :: ps) ++ t⟩) none u := by
  obtain ⟨c, r, hcore, hc, hend⟩ := hx.exists_head
  have hcore : x.part.core = c :: r := hcore
  have hcomma : Gives (skip >>= fun _ => peekToken >>= fun c =>
      if c = some ']' then failNext .trailingComma else failNext .trailingCharacters :
      Reader Unit) fun _ => False :=
    .after fun _ => .after fun _ => .ite (gives_failNext _ _) (gives_failNext _ _)
  rw [endOfList]
  cases first with
  | true =>
    rw [spread_true_cons, hcore, List.cons_append, bind_ok (peekToken_append pos _ hc _)]
    refine Gives.ends ?_ _ u
    split
    next h => exact absurd (Option.some.inj h) hend
    next => exact hcomma
    next => exact gives_failNext _ _
    next => exact gives_failNext _ _
  | false =>
    rw [spread_false_cons, bind_ok (peekToken_append pos gap rfl _)]
    exact hcomma.ends _ u

-- Fills the fields that are left from the items that are left, up to the bracket behind them.
def Shape.ofItemsToEnd (s : Shape σ) (room : Nat) (fs : List (Field σ)) (n : Nat) (filled : σ) :
    Reader σ := do
  let filled ← s.ofItems room fs n filled
  endOfList
  return filled

theorem ends_ofItems_cons {s : Shape σ} {room n : Nat} {f : Field σ} {fs : List (Field σ)}
    {filled : σ} {gap : Gap} {x : Item} {ps : List Part} {o : Option σ} (hx : IsValue x.value)
    (h : ∀ pos, Ends ((f.fill room filled >>= s.ofItemsToEnd room fs (n + 1))
      ⟨pos, x.value ++ (spread false x.after ps ++ ']' :: u)⟩) o u) (pos : Nat) :
    Ends (s.ofItemsToEnd room (f :: fs) n filled
      ⟨pos, spread (n = 0) gap (x.part :: ps) ++ ']' :: u⟩) o u := by
  obtain ⟨c, r, hcore, hc, hend⟩ := hx.exists_head
  rw [Shape.ofItemsToEnd, Shape.ofItems, bind_assoc]
  refine (hasItem_cons hcore hc hend pos _).bind_some fun pos => ?_
  rw [if_pos rfl, bind_assoc]
  exact h pos

/-- What is made of the items of an array, read as the fields in their order. -/
theorem exists_ofItems {s : Shape σ} (hs : s.Steady) (room : Nat) (fs : List (Field σ))
    (hfs : ∀ f ∈ fs, f ∈ s.fields) (n : Nat) (filled : σ) (gap : Gap) (xs : List Item)
    (hxs : ∀ x ∈ xs, IsValue x.value) :
    ∃ o, ∀ pos u, Ends (s.ofItemsToEnd room fs n filled
      ⟨pos, spread (n = 0) gap (xs.map Item.part) ++ ']' :: u⟩) o u := by
  induction fs generalizing n filled gap xs with
  | nil =>
    cases xs with
    | nil =>
      refine ⟨some filled, fun pos u => ?_⟩
      rw [Shape.ofItemsToEnd, Shape.ofItems, bind_ok (pure_apply _ _), List.map_nil, spread,
        endOfList, bind_assoc, bind_ok (peekToken_append pos gap rfl u)]
      exact ends_ok _ _ _
    | cons x xs =>
      exact ⟨none, fun pos u =>
        (endOfList_spread (hxs x List.mem_cons_self) pos _ []).bind_none _ _⟩
  | cons f fs ih =>
    obtain ⟨hf, hfs⟩ := List.forall_mem_cons.1 hfs
    cases xs with
    | nil =>
      obtain ⟨o, hrest⟩ := ih hfs n filled noGap [] (by simp)
      refine ⟨if f.optional then o else none, fun pos u => ?_⟩
      rw [Shape.ofItemsToEnd, Shape.ofItems, bind_assoc]
      refine (hasItem_nil pos u).bind_some fun pos => ?_
      rw [if_neg (by decide)]
      split
      next => exact hrest pos u
      next => exact ((gives_refuse _ _).ends _ []).bind_none _ _
    | cons x xs =>
      obtain ⟨hx, hxs⟩ := List.forall_mem_cons.1 hxs
      have hfollows (u : Text) : Follows (spread false x.after (xs.map Item.part) ++ ']' :: u) :=
        Follows.spread (.inl rfl)
      have hread (pos : Nat) (u : Text) := (hs f hf room filled x.value hx).bare pos (hfollows u)
      cases ho : alone (f.fill room filled) x.value with
      | none =>
        rw [ho] at hread
        exact ⟨none, fun pos u => ends_ofItems_cons hx (fun pos => (hread pos u).bind_none _ u) pos⟩
      | some filled' =>
        rw [ho] at hread
        obtain ⟨o, hrest⟩ := ih hfs (n + 1) filled' x.after xs hxs
        rw [show decide (n + 1 = 0) = false by simp] at hrest
        refine ⟨o, fun pos u => ends_ofItems_cons hx (fun pos => ?_) pos⟩
        exact (hread pos u).bind_some fun pos => hrest pos u

theorem Shape.Steady.record {s : Shape σ} (hs : s.Steady) (room : Nat) (empty : σ) :
    Reader.Steady (record room s empty) := by
  refine steady_firstOfValue fun c v hv => ?_
  by_cases hc : c = '{'
  · obtain ⟨gap, ms, rfl, hms⟩ := hv.object hc
    rw [if_pos hc]
    exact settles_nested room fun room =>
      ⟨_, fun pos u _ => ends_record_object hs room empty gap hms pos u⟩
  · rw [if_neg hc]
    by_cases hc : c = '['
    · obtain ⟨gap, xs, rfl, hxs⟩ := hv.array hc
      rw [if_pos hc]
      refine settles_nested room fun room => ?_
      obtain ⟨o, ho⟩ := exists_ofItems hs room s.fields (fun f hf => hf) 0 empty gap xs hxs
      refine ⟨o, fun pos u _ => ?_⟩
      rw [arrayText_append, bind_ok (skip_cons _ _ _)]
      exact (ho _ u).closedBy.placed
    · rw [if_neg hc]
      exact (gives_wrongKind _).settles v

/-! ## 4. Names of fields -/

namespace Shape

variable {s : Shape σ} {room : Nat} {empty : σ} {m m' : Member} {ms : List Member}
variable {before after : List Text × σ} {name : Text}

theorem find?_name_eq_none (h : name ∉ s.names) : s.fields.find? (·.name = name) = none := by
  rw [List.find?_eq_none]
  intro f hf hn
  exact h (List.mem_map.2 ⟨f, hf, by simpa using hn⟩)

theorem exists_key_of_step (hc : s.closed = true) (h : s.step room m before = some after) :
    ∃ name ∈ s.names, m.key? = some name := by
  obtain ⟨name, hk, hstep⟩ := Option.bind_eq_some_iff.1 h
  refine ⟨name, ?_, hk⟩
  by_contra hn
  rw [find?_name_eq_none hn, hc] at hstep
  simp at hstep

theorem step_other (ho : s.closed = false) (hk : m.key? = some name) (hn : name ∉ s.names) :
    s.step room m before = some before := by
  rw [step, hk, Option.bind_some, find?_name_eq_none hn, ho]
  rfl

theorem exists_key_of_steps (hc : s.closed = true)
    (h : ms.foldlM (fun before m => s.step room m before) before = some after) :
    ∀ m ∈ ms, ∃ name ∈ s.names, m.key? = some name := by
  induction ms generalizing before with
  | nil => simp
  | cons m ms ih =>
    rw [List.foldlM_cons] at h
    obtain ⟨next, hstep, hrest⟩ := Option.bind_eq_some_iff.1 h
    exact List.forall_mem_cons.2 ⟨exists_key_of_step hc hstep, ih hrest⟩

/-- A record that is closed is made of no fields but its own. -/
theorem exists_key_of_made (hc : s.closed = true) {a : σ} (h : s.made room empty ms = some a) :
    ∀ m ∈ ms, ∃ name ∈ s.names, m.key? = some name := by
  obtain ⟨p, hsteps, -⟩ := Option.bind_eq_some_iff.1 h
  exact exists_key_of_steps hc hsteps

-- Whether a field does not have another key than the names of the record.
def knows (s : Shape σ) (m : Member) : Bool := m.key?.all s.names.contains

/-- A record that is not closed is made of its own fields only. -/
theorem made_filter (ho : s.closed = false) (ms : List Member) :
    s.made room empty (ms.filter s.knows) = s.made room empty ms := by
  have hstep : (fun before m =>
      if s.knows m = true then s.step room m before else Pure.pure before) =
      fun before m => s.step room m before := by
    funext before m
    split
    next => rfl
    next hm =>
      obtain ⟨name, hk, hn⟩ : ∃ name, m.key? = some name ∧ name ∉ s.names := by
        cases hk : m.key? with
        | none => simp [knows, hk] at hm
        | some name => exact ⟨name, rfl, by simpa [knows, hk] using hm⟩
      exact (step_other ho hk hn).symm
  rw [made, made, List.foldlM_filter, hstep]

/-- One field may take the place of another of the same name if the record is filled alike. -/
theorem made_replace {f : Field σ} (hf : s.fields.find? (·.name = name) = some f)
    (hk : m.key? = some name) (hm : m'.name = m.name)
    (hfill : ∀ filled, alone (f.fill room filled) m'.value = alone (f.fill room filled) m.value)
    (pre post : List Member) :
    s.made room empty (pre ++ m' :: post) = s.made room empty (pre ++ m :: post) := by
  have hk' : m'.key? = some name := by rw [Member.key?, hm, ← Member.key?, hk]
  have hstep : s.step room m' = s.step room m := by
    funext before
    simp only [step, hk, hk', Option.bind_some, hf, hfill]
  simp only [made, List.foldlM_append, List.foldlM_cons, hstep]

end Shape

/-! ## 5. Whole texts -/

theorem toOption_all {r : Nat → Reader α} {o : Option α} (h : Reads (r deepest) v o)
    (lead after : Gap) : (all r (lead ++ (v ++ after))).toOption = o := by
  have hfollows : Follows after := by
    have := Follows.append (b := after) follows_nil
    rwa [List.append_nil] at this
  have hread := h 0 lead after hfollows
  refine Ends.toOption_eq (t := []) ?_
  cases o with
  | none => exact hread.bind_none _ _
  | some a =>
    refine hread.bind_some fun pos => ?_
    rw [bind_ok (peekToken_gap pos after)]
    exact ends_ok _ _ _

end Baselines.Json.Reader
