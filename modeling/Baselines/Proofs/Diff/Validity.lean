import Baselines.Diff.Hunk

/-!
# Edit scripts are valid

Whatever point the search cuts two lists at, the halves of each list make up the list, so the script
that is found has the two lists as its views. Settling moves a run over its neighbours without a
change of the views: an insertion slides over kept lines that it ends or begins with, and a deletion
and an insertion stand in either order.
-/

namespace Baselines.Diff

/-! ## 1. Views -/

namespace Script

@[simp] theorem old_nil : old [] = [] := rfl

@[simp] theorem new_nil : new [] = [] := rfl

@[simp] theorem old_cons (e : Edit) (s : Script) : old (e :: s) = e.old ++ old s := rfl

@[simp] theorem new_cons (e : Edit) (s : Script) : new (e :: s) = e.new ++ new s := rfl

@[simp] theorem old_append (s s' : Script) : old (s ++ s') = old s ++ old s' :=
  List.flatMap_append

@[simp] theorem new_append (s s' : Script) : new (s ++ s') = new s ++ new s' :=
  List.flatMap_append

end Script

namespace Edit

variable {e : Edit}

theorem old_of_insert (h : e.action = .insert) : e.old = [] := by simp [old, h]

theorem old_of_ne (h : e.action ≠ .insert) : e.old = e.lines := by simp [old, h]

theorem new_of_delete (h : e.action = .delete) : e.new = [] := by simp [new, h]

theorem new_of_ne (h : e.action ≠ .delete) : e.new = e.lines := by simp [new, h]

theorem old_of_keep (h : e.action = .keep) : e.old = e.lines := old_of_ne (by simp [h])

theorem new_of_keep (h : e.action = .keep) : e.new = e.lines := new_of_ne (by simp [h])

theorem new_of_insert (h : e.action = .insert) : e.new = e.lines := new_of_ne (by simp [h])

end Edit

variable {s s' : Script} {old new old' new' : List Text}

namespace Valid

theorem append (h : Valid s old new) (h' : Valid s' old' new') :
    Valid (s ++ s') (old ++ old') (new ++ new') :=
  ⟨by rw [Script.old_append, h.old_eq, h'.old_eq], by rw [Script.new_append, h.new_eq, h'.new_eq]⟩

theorem keep (ls : List Text) (i j : Nat) : Valid (run .keep ls i j) ls ls := by
  unfold run
  split
  · rename_i h
    rw [h]
    exact ⟨rfl, rfl⟩
  · constructor <;> simp [Edit.old, Edit.new]

theorem delete (ls : List Text) (i j : Nat) : Valid (run .delete ls i j) ls [] := by
  unfold run
  split
  · rename_i h
    rw [h]
    exact ⟨rfl, rfl⟩
  · constructor <;> simp [Edit.old, Edit.new]

theorem insert (ls : List Text) (i j : Nat) : Valid (run .insert ls i j) [] ls := by
  unfold run
  split
  · rename_i h
    rw [h]
    exact ⟨rfl, rfl⟩
  · constructor <;> simp [Edit.old, Edit.new]

/-- Lines can be deleted and others put in their place. -/
theorem replace (old new : List Text) (i j i' j' : Nat) :
    Valid (run .delete old i j ++ run .insert new i' j') old new := by
  simpa using (delete old i j).append (insert new i' j')

end Valid

/-! ## 2. The search -/

-- The common end is the same part of both lists.
theorem drop_commonTail (s t : List Text) :
    s.drop (s.length - commonTail s t) = t.drop (t.length - commonTail s t) := by
  have h := take_commonLead s.reverse t.reverse
  rw [List.take_reverse, List.take_reverse, List.reverse_inj] at h
  exact h

/-- A list is its start, its middle and its end. -/
theorem take_middle_drop (s : List Text) (a z : Nat) :
    s.take a ++ (s.drop a).take ((s.drop a).length - z) ++
      (s.drop a).drop ((s.drop a).length - z) = s := by
  rw [List.append_assoc, List.take_append_drop, List.take_append_drop]

theorem valid_scriptFrom (n : Nat) (old new : List Text) (i j : Nat) :
    Valid (scriptFrom n old new i j) old new := by
  induction n generalizing old new i j with
  | zero => exact Valid.replace old new i j _ j
  | succ n ih =>
    let a := commonLead old new
    let z := commonTail (old.drop a) (new.drop a)
    let old2 := (old.drop a).take ((old.drop a).length - z)
    let new2 := (new.drop a).take ((new.drop a).length - z)
    have hlead : old.take a = new.take a := take_commonLead old new
    have htail : (old.drop a).drop ((old.drop a).length - z) =
        (new.drop a).drop ((new.drop a).length - z) := drop_commonTail _ _
    -- wherever the middle is cut in two, its halves make it up
    have hcut : ∀ x y i' j' i'' j'', Valid (scriptFrom n (old2.take x) (new2.take y) i' j' ++
        scriptFrom n (old2.drop x) (new2.drop y) i'' j'') old2 new2 := by
      intro x y i' j' i'' j''
      have h := (ih (old2.take x) (new2.take y) i' j').append
        (ih (old2.drop x) (new2.drop y) i'' j'')
      rwa [List.take_append_drop, List.take_append_drop] at h
    have hsides : ∀ m i' j', Valid m old2 new2 → Valid (run .keep (old.take a) i j ++ m ++
        run .keep ((old.drop a).drop ((old.drop a).length - z)) i' j') old new := by
      intro m i' j' hm
      have h := ((Valid.keep (old.take a) i j).append hm).append
        (Valid.keep ((old.drop a).drop ((old.drop a).length - z)) i' j')
      refine ⟨h.old_eq.trans (take_middle_drop old a z), h.new_eq.trans ?_⟩
      rw [hlead, htail]
      exact take_middle_drop new a z
    unfold scriptFrom
    apply hsides
    split
    · exact Valid.replace _ _ _ _ _ _
    · split
      · exact hcut _ _ _ _ _ _
      · exact Valid.replace _ _ _ _ _ _

theorem valid_shortest (old new : List Text) : Valid (shortest old new) old new :=
  valid_scriptFrom _ old new 0 0

/-! ## 3. Scripts with the same views -/

/-- Whether two scripts have the same lines before and the same lines after. -/
structure SameViews (s t : Script) : Prop where
  old_eq : s.old = t.old
  new_eq : s.new = t.new

namespace SameViews

variable {t u t' : Script}

theorem refl (s : Script) : SameViews s s := ⟨rfl, rfl⟩

theorem trans (h : SameViews s t) (h' : SameViews t u) : SameViews s u :=
  ⟨h.old_eq.trans h'.old_eq, h.new_eq.trans h'.new_eq⟩

theorem append (h : SameViews s t) (h' : SameViews s' t') : SameViews (s ++ s') (t ++ t') :=
  ⟨by rw [Script.old_append, Script.old_append, h.old_eq, h'.old_eq],
    by rw [Script.new_append, Script.new_append, h.new_eq, h'.new_eq]⟩

theorem valid (h : SameViews s t) (hs : Valid s old new) : Valid t old new :=
  ⟨h.old_eq.symm.trans hs.old_eq, h.new_eq.symm.trans hs.new_eq⟩

-- The runs around a part of a script stay as they are.
theorem around (h : SameViews s t) (before after : Script) :
    SameViews (before ++ (s ++ after)) (before ++ (t ++ after)) :=
  (refl before).append (h.append (refl after))

end SameViews

/-! ## 4. The moves of a run -/

section Moves

variable {e x p q r : Edit} {kept moved front rest : List Text}

-- Runs with one action can be joined.
theorem sameViews_join (h : e.action = x.action) :
    SameViews [e, x] [{ e with lines := e.lines ++ x.lines }] := by
  constructor
  · by_cases hi : x.action = .insert <;> simp [Edit.old, h, hi]
  · by_cases hd : x.action = .delete <;> simp [Edit.new, h, hd]

-- A deletion and an insertion can stand in either order.
theorem sameViews_swap (he : e.action ≠ .keep) (hx : x.action ≠ .keep) (h : e.action ≠ x.action) :
    SameViews [e, x] [x, e] := by
  cases hea : e.action with
  | keep => exact absurd hea he
  | delete =>
    cases hxa : x.action with
    | keep => exact absurd hxa hx
    | delete => exact absurd (hea.trans hxa.symm) h
    | insert => constructor <;> simp [Edit.old, Edit.new, hea, hxa]
  | insert =>
    cases hxa : x.action with
    | keep => exact absurd hxa hx
    | delete => constructor <;> simp [Edit.old, Edit.new, hea, hxa]
    | insert => exact absurd (hea.trans hxa.symm) h

-- An insertion slides over kept lines before it that end as it does.
theorem sameViews_slide_up (he : e.action = .keep) (hx : x.action = .insert)
    (hel : e.lines = kept ++ moved) (hxl : x.lines = front ++ moved) (hp : p.action = .keep)
    (hq : q.action = .insert) (hr : r.action = .keep) (hpl : p.lines = kept)
    (hql : q.lines = moved ++ front) (hrl : r.lines = moved) :
    SameViews [e, x] [p, q, r] := by
  constructor <;> simp [Edit.old, Edit.new, he, hx, hel, hxl, hp, hq, hr, hpl, hql, hrl]

-- An insertion slides over kept lines after it that begin as it does.
theorem sameViews_slide_down (he : e.action = .keep) (hx : x.action = .insert)
    (hel : e.lines = moved ++ kept) (hxl : x.lines = moved ++ rest) (hp : p.action = .keep)
    (hq : q.action = .insert) (hr : r.action = .keep) (hpl : p.lines = moved)
    (hql : q.lines = rest ++ moved) (hrl : r.lines = kept) :
    SameViews [x, e] [p, q, r] := by
  constructor <;> simp [Edit.old, Edit.new, he, hx, hel, hxl, hp, hq, hr, hpl, hql, hrl]

-- A run without lines can be left out.
theorem sameViews_unless_empty (e : Edit) (after : Script) :
    SameViews (e :: after) (if e.lines = [] then after else e :: after) := by
  split
  · rename_i h
    constructor <;> simp [Edit.old, Edit.new, h]
  · exact SameViews.refl _

-- The runs before are nearest first.
theorem sameViews_unless_empty_reverse (e : Edit) (before : List Edit) :
    SameViews (before.reverse ++ [e]) (List.reverse (if e.lines = [] then before else e :: before)) := by
  split
  · rename_i h
    constructor <;> simp [Edit.old, Edit.new, h]
  · rw [List.reverse_cons]
    exact SameViews.refl _

-- Kept lines before others are joined to them.
theorem sameViews_keep_before (he : e.action = .keep) (k : Nat) (after : Script) :
    SameViews (e :: after) (match after with
      | a :: r => if a.action = .keep then a.up k (e.lines ++ a.lines) :: r else e :: a :: r
      | [] => [e]) := by
  cases after with
  | nil => exact SameViews.refl _
  | cons a r =>
    dsimp only
    split
    · rename_i ha
      constructor <;> simp [Edit.up, Edit.old, Edit.new, ha, he]
    · exact SameViews.refl _

-- Kept lines after others are joined to them; the runs before are nearest first.
theorem sameViews_keep_after (he : e.action = .keep) (before : List Edit) :
    SameViews (before.reverse ++ [e]) (List.reverse (match before with
      | b :: r => if b.action = .keep then { b with lines := b.lines ++ e.lines } :: r
        else e :: b :: r
      | [] => [e])) := by
  cases before with
  | nil => exact SameViews.refl _
  | cons b r =>
    dsimp only
    split
    · rename_i hb
      constructor <;> simp [Edit.old, Edit.new, hb, he]
    · rw [List.reverse_cons (a := e)]
      exact SameViews.refl _

end Moves

/-! ## 5. Settling -/

namespace Focus

variable {f : Focus}

-- Only insertions slide, by as many lines as they have in common with the kept ones.
theorem slack_pos {common : List Text → List Text → Nat} {x : Edit} {kept : List Text}
    (h : 0 < slack common x kept) :
    x.action = .insert ∧ slack common x kept = common kept x.lines := by
  unfold slack at h ⊢
  split at h
  · rename_i he
    exact ⟨he, if_pos he⟩
  · exact absurd h (Nat.lt_irrefl 0)

/-- Sliding a deletion or an insertion towards the start changes no view. -/
theorem sameViews_slideUp (n : Nat) (hk : f.here.action ≠ .keep) :
    SameViews f.script (slideUp n f).script ∧ (slideUp n f).here.action = f.here.action := by
  induction n generalizing f with
  | zero => exact ⟨SameViews.refl _, rfl⟩
  | succ n ih =>
    obtain ⟨before, x, after⟩ := f
    cases before with
    | nil => exact ⟨SameViews.refl _, rfl⟩
    | cons e before =>
      have hstep : ∀ g : Focus, g.here.action = x.action →
          SameViews (before.reverse ++ ([e, x] ++ after)) g.script →
          SameViews (script ⟨e :: before, x, after⟩) (slideUp n g).script ∧
            (slideUp n g).here.action = x.action := by
        intro g ha hv
        obtain ⟨hv', ha'⟩ := ih (f := g) (by rw [ha]; exact hk)
        refine ⟨SameViews.trans ?_ hv', ha'.trans ha⟩
        simpa [script] using hv
      simp only [slideUp]
      split
      · rename_i hkeep
        split
        · rename_i hpos
          obtain ⟨hinsert, hslack⟩ := slack_pos hpos
          apply hstep _ rfl
          rw [hslack]
          have hmoved := drop_commonTail e.lines x.lines
          generalize commonTail e.lines x.lines = k at hmoved
          let moved := e.lines.drop (e.lines.length - k)
          let p : Edit := { e with lines := e.lines.take (e.lines.length - k) }
          let q : Edit := x.up k (moved ++ x.lines.take (x.lines.length - k))
          let r : Edit :=
            ⟨.keep, moved, e.oldAt + e.lines.length - k, x.newAt + x.lines.length - k⟩
          have hslide : SameViews [e, x] [p, q, r] :=
            sameViews_slide_up hkeep hinsert (List.take_append_drop _ _).symm
              (by rw [hmoved, List.take_append_drop]) hkeep hinsert rfl rfl rfl rfl
          have hsides := (sameViews_unless_empty_reverse p before).append
            ((SameViews.refl [q]).append (sameViews_keep_before (e := r) rfl k after))
          rw [List.append_assoc] at hsides
          exact (hslide.around before.reverse after).trans hsides
        · exact ⟨SameViews.refl _, rfl⟩
      · split
        · rename_i he
          exact hstep _ he ((sameViews_join he).around before.reverse after)
        · rename_i hne he
          exact hstep _ rfl ((sameViews_swap hne hk he).around before.reverse after)

/-- Sliding a deletion or an insertion towards the end changes no view. -/
theorem sameViews_slideDown (n : Nat) (hk : f.here.action ≠ .keep) :
    SameViews f.script (slideDown n f).script ∧ (slideDown n f).here.action = f.here.action := by
  induction n generalizing f with
  | zero => exact ⟨SameViews.refl _, rfl⟩
  | succ n ih =>
    obtain ⟨before, x, after⟩ := f
    cases after with
    | nil => exact ⟨SameViews.refl _, rfl⟩
    | cons e after =>
      have hstep : ∀ g : Focus, g.here.action = x.action →
          SameViews (before.reverse ++ ([x, e] ++ after)) g.script →
          SameViews (script ⟨before, x, e :: after⟩) (slideDown n g).script ∧
            (slideDown n g).here.action = x.action := by
        intro g ha hv
        obtain ⟨hv', ha'⟩ := ih (f := g) (by rw [ha]; exact hk)
        exact ⟨hv.trans hv', ha'.trans ha⟩
      simp only [slideDown]
      split
      · rename_i hkeep
        split
        · rename_i hpos
          obtain ⟨hinsert, hslack⟩ := slack_pos hpos
          apply hstep _ rfl
          rw [hslack]
          have hmoved : e.lines.take (commonLead e.lines x.lines) = _ :=
            take_commonLead e.lines x.lines
          generalize commonLead e.lines x.lines = k at hmoved
          let moved := e.lines.take k
          let p : Edit := ⟨.keep, moved, e.oldAt, x.newAt⟩
          let q : Edit := x.down k (x.lines.drop k ++ moved)
          let r : Edit := e.down k (e.lines.drop k)
          have hslide : SameViews [x, e] [p, q, r] :=
            sameViews_slide_down hkeep hinsert (List.take_append_drop _ _).symm
              (by rw [hmoved, List.take_append_drop]) rfl hinsert hkeep rfl rfl rfl
          have hsides := (sameViews_keep_after (e := p) rfl before).append
            ((SameViews.refl [q]).append (sameViews_unless_empty r after))
          rw [List.append_assoc] at hsides
          exact (hslide.around before.reverse after).trans hsides
        · exact ⟨SameViews.refl _, rfl⟩
      · split
        · rename_i he
          exact hstep _ rfl ((sameViews_join he.symm).around before.reverse after)
        · rename_i hne he
          refine hstep _ rfl ?_
          have h := (sameViews_swap hk hne (Ne.symm he)).around before.reverse after
          simpa [script] using h

end Focus

/-- Settling the runs of one action changes no view. -/
theorem sameViews_settleAction {a : Action} (ha : a ≠ .keep) (moves n : Nat)
    (before after : List Edit) :
    SameViews (before.reverse ++ after) (settleAction a moves n before after) := by
  induction n generalizing before after with
  | zero => exact SameViews.refl _
  | succ n ih =>
    cases after with
    | nil =>
      rw [List.append_nil]
      exact SameViews.refl _
    | cons e after =>
      rw [settleAction]
      split
      · rename_i he
        let f : Focus := ⟨before, e, after⟩
        have hk : f.here.action ≠ .keep := he ▸ ha
        obtain ⟨hup, hup'⟩ := Focus.sameViews_slideUp moves hk
        obtain ⟨hdown, -⟩ := Focus.sameViews_slideDown moves (hup' ▸ hk)
        let g := Focus.slideDown moves (Focus.slideUp moves f)
        refine (hup.trans hdown).trans ?_
        simpa [Focus.script] using ih (g.here :: g.before) g.after
      · simpa using ih (e :: before) after

theorem sameViews_settle (s : Script) : SameViews s (settle s) :=
  (sameViews_settleAction (by decide) _ _ [] s).trans
    (sameViews_settleAction (by decide) _ _ [] _)

/-- The script from one text to another has their lines as its views. -/
theorem valid_script (expected actual : Text) :
    Valid (script expected actual) (cutLines (terminated expected))
      (cutLines (terminated actual)) :=
  (sameViews_settle _).valid (valid_shortest _ _)

end Baselines.Diff
