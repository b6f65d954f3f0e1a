import Baselines.Proofs.Emitter.Slots
import Mathlib.Data.List.Forall2
import Mathlib.Data.List.Induction

/-!
# Arguments of commands

The slots of a template are filled one after the other. This fills them as if all were filled at once,
unless a value, alone or with the text around it, makes a slot whose turn is still to come.
-/

namespace Baselines.Command

open Text

variable {ss before : List (Text × Text)} {s : Text × Text} {k a t u : Text}

/-! ## 1. Slot after slot -/

/-- A text with the slots replaced one after the other. -/
def replaced (ss : List (Text × Text)) (t : Text) : Text :=
  ss.foldl (fun t s => Text.replace s.1 s.2 t) t

theorem replaced_concat (before : List (Text × Text)) (s : Text × Text) (t : Text) :
    replaced (before ++ [s]) t = Text.replace s.1 s.2 (replaced before t) := by
  unfold replaced
  rw [List.foldl_concat]

/-- In its turn every slot is found as often as it stands in the template. -/
def FoundInPlace (ss : List (Text × Text)) (t : Text) : Prop :=
  ∀ before s rest, ss = before ++ s :: rest →
    occurrences s.1 (replaced before t) = occurrences s.1 t

/-- No values, alone or with the text around them, make a slot: in what the slots before it make of the
template at once, a slot stands as often as in the template. -/
def Harmless (ss : List (Text × Text)) (t : Text) : Prop :=
  ∀ before s rest, ss = before ++ s :: rest → ∀ u, Expands before t u →
    occurrences s.1 u = occurrences s.1 t

-- What holds of each place of a list with one more at the end.
theorem forall_place_concat {P : List (Text × Text) → Text × Text → Prop} :
    (∀ front s' rest, before ++ [s] = front ++ s' :: rest → P front s') ↔
      (∀ front s' rest, before = front ++ s' :: rest → P front s') ∧ P before s := by
  constructor
  · intro h
    refine ⟨fun front s' rest he => h front s' (rest ++ [s]) ?_, h before s [] rfl⟩
    rw [he, List.append_assoc, List.cons_append]
  · rintro ⟨h, hlast⟩ front s' rest he
    rcases List.eq_nil_or_concat rest with rfl | ⟨rest, last, rfl⟩
    · obtain ⟨rfl, hs⟩ := List.append_inj' he rfl
      obtain rfl := List.singleton_inj.1 hs
      exact hlast
    · rw [List.concat_eq_append, ← List.cons_append, ← List.append_assoc] at he
      exact h front s' rest (List.append_inj_left' he rfl)

/-- Without slots a text is its own expansion. -/
theorem expands_empty (t : Text) : Expands [] t t := by
  induction t with
  | nil => exact .nil
  | cons x t ih => exact .copy nofun ih

/-- Slots that are found in place are filled one by one as they are at once. -/
theorem FoundInPlace.expands (hs : Slotted ss) (h : FoundInPlace ss t) :
    Expands ss t (replaced ss t) := by
  induction ss using List.reverseRecOn with
  | nil => exact expands_empty t
  | append_singleton before s ih =>
    obtain ⟨hbefore, hfound⟩ := forall_place_concat.1 h
    rw [replaced_concat]
    exact (ih hs.left hbefore).replace hs hfound

/-- Slots are found in place exactly if no values make one. -/
theorem foundInPlace_iff (hs : Slotted ss) : FoundInPlace ss t ↔ Harmless ss t := by
  induction ss using List.reverseRecOn with
  | nil => exact iff_of_true (by simp [FoundInPlace]) (by simp [Harmless])
  | append_singleton before s ih =>
    refine forall_place_concat.trans (Iff.trans ?_ forall_place_concat.symm)
    -- where the slots before it are found in place, what they make is their expansion
    have hlast : FoundInPlace before t → (occurrences s.1 (replaced before t) = occurrences s.1 t ↔
        ∀ u, Expands before t u → occurrences s.1 u = occurrences s.1 t) := by
      intro h
      have hu := h.expands hs.left
      constructor
      · intro hfound u hu'
        rw [hu'.unique hs.left hu, hfound]
      · exact fun hall => hall _ hu
    exact (and_congr_right hlast).trans (and_congr_left' (ih hs.left))

/-! ## 2. Values that make slots -/

/-- A text ends as another begins. -/
def Meets (a b : Text) : Prop := ∃ w, w ≠ [] ∧ w <:+ a ∧ w <+: b

/-- One of a value and a slot stands in the other, or they overlap. -/
def Touches (v k : Text) : Prop := k <:+: v ∨ v <:+: k ∨ Meets v k ∨ Meets k v

/-- No value touches a slot that is filled after its own. -/
def Untouched (ss : List (Text × Text)) : Prop := ss.Pairwise fun s later => ¬ Touches s.2 later.1

/-- A slot does not begin in a value that does not touch it. -/
theorem not_begins_of_not_touches {v : Text} (h : ¬ Touches v k) : ¬ Begins k v t := by
  rintro ⟨w, hw, hs, hp⟩
  rcases List.prefix_or_prefix_of_prefix hp (List.prefix_append w t) with hk | hk
  · exact h (.inl (hk.isInfix.trans hs.isInfix))
  · exact h (.inr (.inr (.inl ⟨w, hw, hs, hk⟩)))

-- By way of the rest of the slot that is still to be met.
theorem Expands.prefix_of_suffix (hv : ∀ s ∈ ss, ¬ Touches s.2 k) (hu : Expands ss t u) {w : Text}
    (hw : w <:+ k) (hp : w <+: u) : w <+: t := by
  induction hu generalizing w with
  | nil => exact hp
  | @slot s t u hs _ _ =>
    by_cases hnil : w = []
    · rw [hnil]
      exact List.nil_prefix
    · rcases List.prefix_or_prefix_of_prefix hp (List.prefix_append s.2 u) with hp | hp
      · exact absurd (.inr (.inr (.inr ⟨w, hnil, hw, hp⟩))) (hv s hs)
      · exact absurd (.inr (.inl (hp.isInfix.trans hw.isInfix))) (hv s hs)
  | @copy x t u _ _ ih =>
    cases w with
    | nil => exact List.nil_prefix
    | cons y w =>
      obtain ⟨rfl, hp'⟩ := List.cons_prefix_cons.1 hp
      exact List.cons_prefix_cons.2 ⟨rfl, ih ((List.suffix_cons y w).trans hw) hp'⟩

/-- Values that do not touch a slot make none of it. -/
theorem Expands.occurrences_eq (h : Slotted (before ++ [s])) (hv : ∀ s' ∈ before, ¬ Touches s'.2 s.1)
    (hu : Expands before t u) : occurrences s.1 u = occurrences s.1 t := by
  induction hu with
  | nil => rfl
  | @slot s' t u hs _ ih =>
    rw [occurrences_append (not_begins_of_not_touches (hv s' hs)), ih,
      occurrences_append (h.last.not_begins_of_ne (h.left.named s' hs) (h.ne_last hs).symm)]
  | @copy x t u hno hu ih =>
    have hp : s.1 <+: x :: u → s.1 <+: x :: t :=
      (Expands.copy hno hu).prefix_of_suffix hv List.suffix_rfl
    have hle := (Expands.copy hno hu).occurrences_le h
    by_cases hx : s.1 <+: x :: u
    · rw [occurrences, occurrences, if_pos hx, if_pos (hp hx), ih]
    · rw [occurrences_cons hx] at hle ⊢
      refine Nat.le_antisymm ?_ hle
      rw [ih]
      exact Nat.le_add_left _ _

/-- A value that touches a slot is part of a text that has the slot, between a text that closes no slot
and one that opens none. -/
theorem Touches.exists_around {v : Text} (hk : IsSlot k) (h : Touches v k) :
    ∃ a b, '}' ∉ a ∧ '{' ∉ b ∧ k <:+: a ++ (v ++ b) := by
  rcases h with h | ⟨a, b, rfl⟩ | ⟨w, hw, ⟨a, rfl⟩, ⟨b, rfl⟩⟩ | ⟨w, hw, ⟨a, rfl⟩, ⟨b, rfl⟩⟩
  · exact ⟨[], [], by simp, by simp, by simpa using h⟩
  · rw [List.append_assoc] at hk ⊢
    by_cases hv : v = []
    · -- an empty value stands anywhere in the slot, so just after the brace that opens it
      subst hv
      rw [List.nil_append] at hk ⊢
      obtain ⟨c, hc, hopen⟩ := hk.exists_open
      rw [hc]
      exact ⟨['{'], c, by simp, hopen, List.infix_rfl⟩
    · refine ⟨a, b, hk.close_not_mem (by simp [hv]), ?_, List.infix_rfl⟩
      rw [← List.append_assoc] at hk
      exact hk.open_not_mem (by simp [hv])
  · exact ⟨[], b, by simp, hk.open_not_mem hw, ⟨a, [], by simp⟩⟩
  · exact ⟨a, [], hk.close_not_mem hw, by simp, ⟨[], b, by simp⟩⟩

/-- A slot between a text that closes none and one that opens none is filled where it stands. -/
theorem expands_around {b : Text} (h : Slotted ss) (hs : s ∈ ss) (ha : '}' ∉ a) (hb : '{' ∉ b) :
    Expands ss (a ++ (s.1 ++ b)) (a ++ (s.2 ++ b)) := by
  have hrest : Expands ss b b := by
    have hcopy : Expands ss (b ++ []) (b ++ []) := (expands_append_iff fun s' hs' =>
      (h.named s' hs').not_begins_of_open hb).2 ⟨[], rfl, .nil⟩
    simpa using hcopy
  exact (expands_append_iff fun s' hs' =>
    (h.named s' hs').not_begins_of_close (h.named s hs) ha).2 ⟨_, rfl, .slot hs hrest⟩

theorem occurrences_around {b : Text} (hk : IsSlot k) (hk' : IsSlot k') (hne : k ≠ k')
    (ha : '}' ∉ a) (hb : '{' ∉ b) : occurrences k (a ++ (k' ++ b)) = 0 := by
  have hrest : occurrences k (b ++ []) = 0 := occurrences_append (hk.not_begins_of_open hb)
  rw [occurrences_append (hk.not_begins_of_close hk' ha),
    occurrences_append (hk.not_begins_of_ne hk' hne)]
  simpa using hrest

/-- Values make slots in no template exactly if they touch none that comes later. -/
theorem harmless_iff_untouched (hs : Slotted ss) : (∀ t, Harmless ss t) ↔ Untouched ss := by
  constructor
  · intro h
    unfold Untouched
    induction ss using List.reverseRecOn with
    | nil => exact .nil
    | append_singleton before later ih =>
      have hplaces := fun t => forall_place_concat.1 (h t)
      refine List.pairwise_append.2
        ⟨ih hs.left fun t => (hplaces t).1, List.pairwise_singleton _ _, ?_⟩
      intro s hmem later' hlater htouch
      obtain rfl := List.mem_singleton.1 hlater
      -- around the slot `s` stands what its value is to be joined with
      obtain ⟨a, b, ha, hb, hin⟩ := htouch.exists_around hs.last
      have hfound := (hplaces (a ++ (s.1 ++ b))).2 _ (expands_around hs.left hmem ha hb)
      rw [occurrences_around hs.last (hs.left.named s hmem) (hs.ne_last hmem).symm ha hb] at hfound
      exact (occurrences_eq_zero_iff hs.last.ne_nil).1 hfound hin
  · rintro h t before s rest rfl u hu
    have hv : ∀ s' ∈ before, ¬ Touches s'.2 s.1 := fun s' hs' =>
      (List.pairwise_append.1 h).2.2 s' hs' s (by simp)
    rw [List.append_cons] at hs
    exact hu.occurrences_eq hs.left hv

/-! ## 3. Arguments -/

variable {r : Request} {input : Path}

/-- The slots of a command line, in the order in which they are filled. -/
def slotKeys : List Text := ["input".toList, "file".toList, "target".toList, "stage".toList,
  "minify".toList, "options".toList].map slot

theorem keys_slots (r : Request) (input : Path) : (slots r input).map (·.1) = slotKeys := rfl

theorem isSlot_of_mem_slotKeys (h : k ∈ slotKeys) : IsSlot k := by
  have hplain : ∀ name ∈ ["input".toList, "file".toList, "target".toList, "stage".toList,
    "minify".toList, "options".toList], '{' ∉ name ∧ '}' ∉ name := by decide
  obtain ⟨name, hname, rfl⟩ := List.mem_map.1 h
  exact ⟨name, rfl, hplain name hname⟩

/-- The slots of a request are slots, each under one name. -/
theorem slotted_slots (r : Request) (input : Path) : Slotted (slots r input) := by
  constructor
  · intro s hs
    exact isSlot_of_mem_slotKeys (keys_slots r input ▸ List.mem_map_of_mem hs)
  · rw [keys_slots]
    decide

/-- The arguments of a command are its templates with all slots filled at once: what is found in its
turn is what stands in the template, and nothing in a value, or made by one, is found. -/
structure AtOnce (c : Command) (r : Request) (input : Path) : Prop where
  arguments : List.Forall₂ (Expands (slots r input)) c.templates (c.arguments r input)
  found : ∀ template ∈ c.templates, FoundInPlace (slots r input) template

/-- A command fills its templates slot after slot. -/
theorem fill_eq_replaced (r : Request) (input : Path) (t : Text) :
    fill r input t = replaced (slots r input) t := rfl

theorem atOnce_iff_harmless (c : Command) :
    AtOnce c r input ↔ ∀ template ∈ c.templates, Harmless (slots r input) template := by
  have hs := slotted_slots r input
  simp only [← foundInPlace_iff hs]
  refine ⟨AtOnce.found, fun h => ⟨?_, h⟩⟩
  unfold arguments
  rw [List.forall₂_map_right_iff, List.forall₂_same]
  intro template ht
  rw [fill_eq_replaced]
  exact (h template ht).expands hs

/-- Every command has its templates filled at once exactly if no value touches a later slot. -/
theorem forall_atOnce_iff : (∀ c, AtOnce c r input) ↔ Untouched (slots r input) := by
  rw [← harmless_iff_untouched (slotted_slots r input)]
  simp only [atOnce_iff_harmless]
  constructor
  · intro h template
    exact h ⟨[], [template]⟩ template (by simp [templates])
  · exact fun h c template _ => h template

/-! ## 4. Plain values -/

/-- A value without braces, and with a character that the slot has not, does not touch it. -/
theorem IsSlot.not_touches {v : Text} {x : Char} (hk : IsSlot k) (hopen : '{' ∉ v) (hclose : '}' ∉ v)
    (hx : x ∈ v) (hxk : x ∉ k) : ¬ Touches v k := by
  rintro (h | h | ⟨w, hw, hs, hp⟩ | ⟨w, hw, ⟨a, rfl⟩, hp⟩)
  · obtain ⟨b, rfl, -⟩ := hk.exists_open
    exact hopen (h.subset List.mem_cons_self)
  · exact hxk (h.subset hx)
  · obtain ⟨b, rfl, -⟩ := hk.exists_open
    obtain ⟨y, w, rfl⟩ := List.exists_cons_of_ne_nil hw
    obtain ⟨rfl, -⟩ := List.cons_prefix_cons.1 hp
    exact hopen (hs.subset List.mem_cons_self)
  · rcases List.mem_append.1 hk.close_mem with h | h
    · exact hk.close_not_mem hw h
    · exact hclose (hp.subset h)

/-- A value is without braces and has a character that is in none of some slots. -/
def PlainFor (keys : List Text) (v : Text) : Prop :=
  '{' ∉ v ∧ '}' ∉ v ∧ ∃ x ∈ v, ∀ k ∈ keys, x ∉ k

theorem plainFor_label (target : Target) : PlainFor (slotKeys.drop 3) target.label := by
  refine ⟨by cases target <;> decide, by cases target <;> decide, ?_⟩
  cases target with
  | es3 => exact ⟨'3', by decide, by decide⟩
  | es5 => exact ⟨'5', by decide, by decide⟩
  | esnext => exact ⟨'x', by decide, by decide⟩
  | _ => exact ⟨'2', by decide, by decide⟩

theorem plainFor_stage (stage : Stage) : PlainFor (slotKeys.drop 4) stage.label := by
  cases stage with
  | normal => exact ⟨by decide, by decide, 'r', by decide, by decide⟩
  | minified => exact ⟨by decide, by decide, 'd', by decide, by decide⟩

theorem plainFor_minify (stage : Stage) :
    PlainFor (slotKeys.drop 5) (if stage.isMinified then "true" else "false") := by
  cases stage with
  | normal => exact ⟨by decide, by decide, 'f', by decide, by decide⟩
  | minified => exact ⟨by decide, by decide, 'u', by decide, by decide⟩

/-- Where there is a target, a path with a slash and a file name with a dot touch no slot unless a brace
is in them. -/
theorem untouched_of_plain (hinput : '/' ∈ input ∧ '{' ∉ input ∧ '}' ∉ input)
    (hfile : '.' ∈ r.file ∧ '{' ∉ r.file ∧ '}' ∉ r.file) (htarget : r.target ≠ none) :
    Untouched (slots r input) := by
  have key : ∀ {v : Text} (n : Nat), PlainFor (slotKeys.drop n) v →
      ∀ s ∈ (slots r input).drop n, ¬ Touches v s.1 := by
    rintro v n ⟨hopen, hclose, x, hx, hxk⟩ s hs
    have hmem : s.1 ∈ slotKeys.drop n := by
      rw [← keys_slots r input, ← List.map_drop]
      exact List.mem_map_of_mem hs
    exact (isSlot_of_mem_slotKeys (List.mem_of_mem_drop hmem)).not_touches hopen hclose hx
      (hxk s.1 hmem)
  obtain ⟨target, ht⟩ := Option.ne_none_iff_exists'.1 htarget
  have hlabel : r.targetLabel = target.label := by rw [Request.targetLabel, ht]; rfl
  exact .cons (key 1 ⟨hinput.2.1, hinput.2.2, '/', hinput.1, by decide⟩) <|
    .cons (key 2 ⟨hfile.2.1, hfile.2.2, '.', hfile.1, by decide⟩) <|
    .cons (key 3 (hlabel ▸ plainFor_label target)) <|
    .cons (key 4 (plainFor_stage r.stage)) <|
    .cons (key 5 (plainFor_minify r.stage)) <| List.pairwise_singleton _ _

/-- A request whose path and file hold no braces is filled at once, whatever the command: the path
has a slash, the file a dot, and a target is asked for. -/
theorem atOnce_of_plain (c : Command) (hinput : '/' ∈ input ∧ '{' ∉ input ∧ '}' ∉ input)
    (hfile : '.' ∈ r.file ∧ '{' ∉ r.file ∧ '}' ∉ r.file) (htarget : r.target ≠ none) :
    AtOnce c r input :=
  forall_atOnce_iff.2 (untouched_of_plain hinput hfile htarget) c

-- Without a target what stands around the empty value may be joined to a slot.
example : fill ⟨"a.ts".toList, [], none, .normal, []⟩ "/x/a.ts" "{st{target}age}" = "normal" := by
  decide +kernel

/-! ## 5. When all slots are filled at once -/

/-- The slots in the templates of a command are filled as if all were filled at once exactly when no
values make, in what the slots before it make of a template at once, a slot that does not stand in
the template. For all commands this is so exactly when no value stands in a slot that is filled
later, has it as a part or overlaps with it. -/
theorem arguments_at_once_iff (c : Command) (r : Request) (input : Path) :
    (AtOnce c r input ↔ ∀ template ∈ c.templates, Harmless (slots r input) template) ∧
      ((∀ c', AtOnce c' r input) ↔ Untouched (slots r input)) :=
  ⟨atOnce_iff_harmless c, forall_atOnce_iff⟩

/-- A request for a source whose name has a slot in it. -/
def slotNamed : Request where
  file := "{target}.ts"
  source := []
  target := some .es5
  stage := .normal
  options := []

def fileOnly : Command where
  program := "tsz"
  args := ["{file}".toList]

-- The slot in the name of the file is filled, since its turn comes after that of the file.
theorem arguments_in_turn :
    fileOnly.arguments slotNamed "/tmp/x/{target}.ts" = ["es5.ts".toList] ∧
      List.Forall₂ (Expands (slots slotNamed "/tmp/x/{target}.ts")) fileOnly.templates
        ["{target}.ts".toList] ∧
      ¬ AtOnce fileOnly slotNamed "/tmp/x/{target}.ts" := by
  have hargs : fileOnly.arguments slotNamed "/tmp/x/{target}.ts" = ["es5.ts".toList] := by
    decide +kernel
  have hfile : Expands (slots slotNamed "/tmp/x/{target}.ts") "{file}" "{target}.ts" :=
    .slot (s := (slot "file", "{target}.ts")) (List.mem_cons_of_mem _ List.mem_cons_self) .nil
  refine ⟨hargs, .cons hfile .nil, fun h => ?_⟩
  have hboth := h.arguments
  rw [hargs] at hboth
  have hes5 := (List.forall₂_cons.1 hboth).1
  have hne : "es5.ts".toList ≠ "{target}.ts".toList := by decide
  exact hne (hes5.unique (slotted_slots _ _) hfile)

end Baselines.Command
