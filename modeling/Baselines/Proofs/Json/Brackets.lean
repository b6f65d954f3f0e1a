import Baselines.Proofs.Json.Values
import Baselines.Proofs.Text.Pieces

/-!
# Readers of arrays and objects

The items of an array and the fields of an object are read one after the other, with the blanks and
commas between them. What is made of all of them is what is made of each in turn.
-/

namespace Baselines.Json

/-! ## 1. Parts between brackets -/

/-- An item or a field, with the blanks around it. -/
structure Part where
  before : Gap
  core : Text
  after : Gap

def Part.text (p : Part) : Text := p.before ++ (p.core ++ p.after.1)

def Item.part (x : Item) : Part := ⟨x.before, x.value, x.after⟩

def Member.core (m : Member) : Text :=
  quoted m.name ++ (m.middle ++ (':' :: (m.lead ++ m.value)))

theorem Member.core_append (m : Member) (u : Text) :
    m.core ++ u = quoted m.name ++ (m.middle ++ ':' :: (m.lead ++ (m.value ++ u))) := by
  simp [core]

def Member.part (m : Member) : Part := ⟨m.before, m.core, m.after⟩

theorem Member.text_part (m : Member) : m.text = m.part.text := by
  simp [text, part, Part.text, core, tail]

/-- Parts with the commas before them, of which the first part has none, and the blanks at their
end. Those at the start are `gap`, unless the first part has its own. -/
def spread (first : Bool) (gap : Gap) : List Part → Text
  | [] => gap
  | p :: ps =>
    (if first then [] else gap.1 ++ [',']) ++ (p.before ++ (p.core ++ spread false p.after ps))

/-- The first part of several stands at once behind the bracket. -/
theorem spread_true_cons (gap : Gap) (p : Part) (ps : List Part) (u : Text) :
    spread true gap (p :: ps) ++ u = p.before ++ (p.core ++ (spread false p.after ps ++ u)) := by
  simp [spread]

/-- Each further part stands behind a comma. -/
theorem spread_false_cons (gap : Gap) (p : Part) (ps : List Part) (u : Text) :
    spread false gap (p :: ps) ++ u =
      gap ++ ',' :: (p.before ++ (p.core ++ (spread false p.after ps ++ u))) := by
  simp [spread]

/-- Parts with commas between them are the first part and the spread of the others. -/
theorem join_parts (p : Part) (ps : List Part) :
    Text.join [','] ((p :: ps).map Part.text) =
      p.before ++ (p.core ++ spread false p.after ps) := by
  induction ps generalizing p with
  | nil => rfl
  | cons q ps ih =>
    rw [List.map_cons, Text.join_cons _ (by simp), ih q]
    simp [Part.text, spread]

/-- Parts in brackets are their spread between the brackets. -/
theorem bracketed_parts (first last : Char) (gap : Gap) (ps : List Part) :
    bracketed first last gap (ps.map Part.text) = first :: (spread true gap ps ++ [last]) := by
  cases ps with
  | nil => rfl
  | cons p ps =>
    rw [bracketed, if_neg (by simp), join_parts]
    rfl

theorem arrayText_spread (gap : Gap) (xs : List Item) :
    arrayText gap xs = '[' :: (spread true gap (xs.map Item.part) ++ [']']) := by
  rw [← bracketed_parts, List.map_map]
  rfl

theorem objectText_spread (gap : Gap) (ms : List Member) :
    objectText gap ms = '{' :: (spread true gap (ms.map Member.part) ++ ['}']) := by
  rw [← bracketed_parts, List.map_map, objectText, funext Member.text_part]
  rfl

theorem arrayText_append (gap : Gap) (xs : List Item) (u : Text) :
    arrayText gap xs ++ u = '[' :: (spread true gap (xs.map Item.part) ++ ']' :: u) := by
  rw [arrayText_spread, List.cons_append, List.append_assoc, List.singleton_append]

theorem objectText_append (gap : Gap) (ms : List Member) (u : Text) :
    objectText gap ms ++ u = '{' :: (spread true gap (ms.map Member.part) ++ '}' :: u) := by
  rw [objectText_spread, List.cons_append, List.append_assoc, List.singleton_append]

namespace Reader

variable {α σ : Type} {first : Bool} {gap : Gap} {p : Part} {ps : List Part} {t u : Text}

/-! ## 2. Commas and ends -/

/-- What stands behind a part, a comma or a bracket, follows a value. -/
theorem Follows.spread {c : Char} (hc : c = ']' ∨ c = '}') :
    Follows (spread false gap ps ++ c :: t) := by
  cases ps with
  | nil =>
    refine Follows.append ?_
    rintro d ⟨⟩
    exact .inr (.inr (.inr hc))
  | cons p ps =>
    rw [spread_false_cons]
    refine Follows.append ?_
    rintro d ⟨⟩
    exact .inr (.inl rfl)

/-- Behind the last item there is no other. -/
theorem hasItem_nil (pos : Nat) (t : Text) :
    Ends (hasItem first ⟨pos, spread first gap [] ++ ']' :: t⟩) (some false) (']' :: t) := by
  rw [spread, hasItem, bind_ok (peekToken_append pos gap rfl t)]
  exact ends_ok _ _ _

/-- Before an item there is one, and its gap is passed. -/
theorem hasItem_cons {c : Char} {r : Text} (hp : p.core = c :: r) (hc : isGap c = false)
    (hend : c ≠ ']') (pos : Nat) (u : Text) :
    Ends (hasItem first ⟨pos, spread first gap (p :: ps) ++ u⟩) (some true)
      (p.core ++ (spread false p.after ps ++ u)) := by
  rw [hasItem]
  cases first with
  | true =>
    rw [spread_true_cons, hp, List.cons_append, bind_ok (peekToken_append pos p.before hc _)]
    simp only [if_neg hend, if_true]
    exact ends_ok _ _ _
  | false =>
    rw [spread_false_cons, hp, List.cons_append, bind_ok (peekToken_append pos gap rfl _)]
    simp only [if_neg (show ',' ≠ ']' by decide), Bool.false_eq_true, if_false, if_true]
    rw [bind_ok (skip_cons _ _ _), bind_ok (peekToken_append _ p.before hc _)]
    simp only
    exact ends_ok _ _ _

/-- Behind the last member there is no other. -/
theorem hasField_nil (pos : Nat) (t : Text) :
    Ends (hasField first ⟨pos, spread first gap [] ++ '}' :: t⟩) (some false) ('}' :: t) := by
  rw [spread, hasField, bind_ok (peekToken_append pos gap rfl t)]
  exact ends_ok _ _ _

/-- Before a member there is one, and its gap is passed. -/
theorem hasField_cons (m : Member) (pos : Nat) (u : Text) :
    Ends (hasField first ⟨pos, spread first gap (m.part :: ps) ++ u⟩) (some true)
      (m.core ++ (spread false m.after ps ++ u)) := by
  obtain ⟨r, hq⟩ : ∃ r, m.part.core = '"' :: r := ⟨_, rfl⟩
  rw [hasField]
  change Ends _ _ (m.part.core ++ _)
  cases first with
  | true =>
    rw [spread_true_cons, hq, List.cons_append, bind_ok (peekToken_append pos _ rfl _)]
    exact ends_ok _ _ _
  | false =>
    rw [spread_false_cons, hq, List.cons_append, bind_ok (peekToken_append pos gap rfl _)]
    simp only [if_neg (show ',' ≠ '}' by decide), Bool.false_eq_true, if_false, if_true]
    rw [bind_ok (skip_cons _ _ _), bind_ok (peekToken_append _ _ rfl _)]
    exact ends_ok _ _ _

theorem ends_endOfList (pos : Nat) (t : Text) :
    Ends (endOfList ⟨pos, ']' :: t⟩) (some ()) t := by
  rw [endOfList, bind_ok (peekToken_cons pos rfl t)]
  exact ends_ok _ _ _

theorem ends_endOfObject (pos : Nat) (t : Text) :
    Ends (endOfObject ⟨pos, '}' :: t⟩) (some ()) t := by
  rw [endOfObject, bind_ok (peekToken_cons pos rfl t)]
  exact ends_ok _ _ _

/-! ## 3. Arrays -/

/-- Items are read in turn: all of them are given if each is, and none otherwise. -/
theorem ends_items (first : Bool) (gap : Gap) (t : Text) {item : Reader α} (h : Steady item)
    (xs : List Item) (hx : ∀ x ∈ xs, IsValue x.value) {n : Nat} (hn : xs.length < n)
    (found : List α) (pos : Nat) :
    Ends (items item n first found ⟨pos, spread first gap (xs.map Item.part) ++ ']' :: t⟩)
      ((xs.mapM fun x => alone item x.value).map (found.reverse ++ ·)) (']' :: t) := by
  induction xs generalizing n first gap found pos with
  | nil =>
    obtain _ | n := n
    · simp at hn
    rw [items]
    refine (hasItem_nil pos t).bind_some fun pos => ?_
    rw [List.mapM_nil, Option.pure_def, Option.map_some, List.append_nil]
    exact ends_ok _ _ _
  | cons x xs ih =>
    obtain _ | n := n
    · simp at hn
    obtain ⟨hv, hvs⟩ := List.forall_mem_cons.1 hx
    obtain ⟨c, r, hcore, hc, hend⟩ := hv.exists_head
    rw [items, List.map_cons]
    refine (hasItem_cons hcore hc hend pos _).bind_some fun pos => ?_
    have hfollows : Follows (spread false x.after (xs.map Item.part) ++ ']' :: t) :=
      Follows.spread (.inl rfl)
    have hread := (h x.value hv).bare pos hfollows
    rw [if_pos rfl, List.mapM_cons]
    cases ha : alone item x.value with
    | none =>
      rw [ha] at hread
      exact hread.bind_none _ _
    | some a =>
      rw [ha] at hread
      refine hread.bind_some fun pos => ?_
      have houtcome (o : Option (List α)) :
          (some a >>= fun a => o >>= fun as => Pure.pure (a :: as)) = o.map (a :: ·) := by
        cases o <;> rfl
      rw [houtcome, map_reverse_cons]
      exact ih _ _ hvs (Nat.lt_of_succ_lt_succ hn) _ pos

/-- There are no more parts than characters. -/
theorem length_le_spread (first : Bool) (gap : Gap) (ps : List Part)
    (hp : ∀ p ∈ ps, p.core ≠ []) : ps.length ≤ (spread first gap ps).length := by
  induction ps generalizing first gap with
  | nil => exact Nat.zero_le _
  | cons p ps ih =>
    have hrest := ih false p.after fun q hq => hp q (List.mem_cons_of_mem p hq)
    have hcore := List.length_pos_iff.2 (hp p List.mem_cons_self)
    simp only [spread, List.length_append, List.length_cons]
    omega

theorem length_items_le (gap : Gap) {xs : List Item} (hx : ∀ x ∈ xs, IsValue x.value) :
    xs.length ≤ (spread true gap (xs.map Item.part)).length := by
  have h := length_le_spread true gap (xs.map Item.part) (by
    simp only [List.mem_map]
    rintro _ ⟨x, hm, rfl⟩
    obtain ⟨c, r, hv, -⟩ := (hx x hm).exists_head
    simp [Item.part, hv])
  rwa [List.length_map] at h

/-- A reader that needs room for brackets refuses where there is none. -/
theorem settles_nested {r : Nat → Reader α} {v : Text} (room : Nat)
    (h : ∀ room, Settles (r room) v) : Settles (nested room r) v :=
  match room with
  | 0 | 1 => Gives.settles (gives_failNext _ _) v
  | room + 2 => h (room + 1)

/-- A list is read steadily where its items are. -/
theorem Steady.list {item : Nat → Reader α} (h : ∀ room, Steady (item room)) (room : Nat) :
    Steady (list room item) := by
  refine steady_firstOfValue fun c v hv => ?_
  by_cases hc : c = '['
  · obtain ⟨gap, xs, rfl, hx⟩ := hv.array hc
    rw [if_pos hc]
    refine settles_nested room fun room => ⟨xs.mapM fun x => alone (item room) x.value, ?_⟩
    intro pos u _
    have hlong : xs.length < (spread true gap (xs.map Item.part) ++ ']' :: u).length + 1 := by
      have := length_items_le gap hx
      rw [List.length_append]
      omega
    have hitems := ends_items true gap u (h room) xs hx hlong []
    simp only [List.reverse_nil, List.nil_append, Option.map_id'] at hitems
    rw [arrayText_append, bind_ok (skip_cons _ _ _), bind_ok (unread_apply _)]
    exact ((hitems _).closed fun pos => ends_endOfList pos u).placed
  · rw [if_neg hc]
    exact (gives_wrongKind _).settles v

/-! ## 4. Objects -/

theorem follows_colon (gap : Gap) (t : Text) : Follows (gap ++ ':' :: t) := by
  refine Follows.append ?_
  rintro d ⟨⟩
  exact .inr (.inr (.inl rfl))

theorem ends_colon (pos : Nat) (gap : Gap) (t : Text) :
    Ends (colon ⟨pos, gap ++ ':' :: t⟩) (some ()) t := by
  rw [colon, bind_ok (peekToken_append pos gap rfl t)]
  exact ends_ok _ _ _

/-- That what is found before a field becomes `step` of it when the field has been read. -/
def Takes (field : Text → α → Reader α) (m : Member) (step : α → Option α) : Prop :=
  ∀ found pos u, Follows u →
    Ends ((string true >>= fun name => field name found) ⟨pos, m.core ++ u⟩) (step found) u

/-- A member is taken as its name says, and refused where the name cannot be read. -/
theorem takes_of_name {field : Text → α → Reader α} {m : Member} {step : Text → α → Option α}
    (h : ∀ name found pos u, Follows u → Ends (field name found
      ⟨pos, m.middle ++ ':' :: (m.lead ++ (m.value ++ u))⟩) (step name found) u) :
    Takes field m fun found => m.key?.bind fun name => step name found := by
  intro found pos u hu
  rw [Member.core_append]
  exact (ends_string m.name pos _).bind fun name _ pos => h name found pos u hu

/-- Members are taken in turn, each as the ones before it leave the record. -/
theorem ends_fields (first : Bool) (gap : Gap) (t : Text) {field : Text → α → Reader α}
    {step : Member → α → Option α} (ms : List Member) (h : ∀ m ∈ ms, Takes field m (step m))
    {n : Nat} (hn : ms.length < n) (found : α) (pos : Nat) :
    Ends (fields field n first found ⟨pos, spread first gap (ms.map Member.part) ++ '}' :: t⟩)
      (ms.foldlM (fun found m => step m found) found) ('}' :: t) := by
  induction ms generalizing n first gap found pos with
  | nil =>
    obtain _ | n := n
    · simp at hn
    rw [fields]
    exact (hasField_nil pos t).bind_some fun pos => ends_ok _ _ _
  | cons m ms ih =>
    obtain _ | n := n
    · simp at hn
    obtain ⟨hm, hms⟩ := List.forall_mem_cons.1 h
    rw [fields, List.map_cons]
    refine (hasField_cons m pos _).bind_some fun pos => ?_
    rw [if_pos rfl, ← bind_assoc, List.foldlM_cons]
    refine (hm found pos _ (Follows.spread (.inr rfl))).bind fun found' _ pos => ?_
    exact ih _ _ hms (Nat.lt_of_succ_lt_succ hn) found' pos

theorem length_members_le (gap : Gap) (ms : List Member) :
    ms.length ≤ (spread true gap (ms.map Member.part)).length := by
  have h := length_le_spread true gap (ms.map Member.part) (by
    simp [Member.part, Member.core, quoted])
  rwa [List.length_map] at h

end Reader

end Baselines.Json
