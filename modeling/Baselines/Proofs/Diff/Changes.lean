import Baselines.Proofs.Diff.Validity

/-!
# What a diff shows of a script

The counts of a diff make up the difference of the two lists, and they vanish only when the lists are
the same. A diff is empty exactly when its script keeps every line.
-/

namespace Baselines.Diff

/-! ## 1. Counts -/

section Counts

variable {s : Script} {e : Edit}

theorem stats_cons_keep (h : e.action = .keep) (s : Script) : stats (e :: s) = stats s := by
  simp [stats, h]

theorem stats_cons_delete (h : e.action = .delete) (s : Script) :
    stats (e :: s) = ⟨(stats s).inserted, e.lines.length + (stats s).deleted⟩ := by
  simp [stats, h]

theorem stats_cons_insert (h : e.action = .insert) (s : Script) :
    stats (e :: s) = ⟨e.lines.length + (stats s).inserted, (stats s).deleted⟩ := by
  simp [stats, h]

/-- What is inserted and not deleted is what the list after has more than the list before. -/
theorem length_old_add_inserted (s : Script) :
    s.old.length + (stats s).inserted = s.new.length + (stats s).deleted := by
  induction s with
  | nil => rfl
  | cons e s ih =>
    rw [Script.old_cons, Script.new_cons, List.length_append, List.length_append]
    cases he : e.action with
    | keep =>
      rw [stats_cons_keep he, Edit.old_of_keep he, Edit.new_of_keep he]
      omega
    | delete =>
      rw [stats_cons_delete he, Edit.old_of_ne (by simp [he]), Edit.new_of_delete he]
      simp only [List.length_nil]
      omega
    | insert =>
      rw [stats_cons_insert he, Edit.old_of_insert he, Edit.new_of_insert he]
      simp only [List.length_nil]
      omega

/-- Where nothing is inserted and nothing deleted the lists are the same. -/
theorem old_eq_new_of_stats (h : (stats s).inserted + (stats s).deleted = 0) : s.old = s.new := by
  induction s with
  | nil => rfl
  | cons e s ih =>
    rw [Script.old_cons, Script.new_cons]
    cases he : e.action with
    | keep =>
      rw [stats_cons_keep he] at h
      rw [Edit.old_of_keep he, Edit.new_of_keep he, ih h]
    | delete =>
      rw [stats_cons_delete he] at h
      dsimp only at h
      have hlines : e.lines = [] := List.length_eq_zero_iff.1 (by omega)
      rw [Edit.old_of_ne (by simp [he]), Edit.new_of_delete he, hlines, ih (by omega)]
    | insert =>
      rw [stats_cons_insert he] at h
      dsimp only at h
      have hlines : e.lines = [] := List.length_eq_zero_iff.1 (by omega)
      rw [Edit.old_of_insert he, Edit.new_of_insert he, hlines, ih (by omega)]

/-- A script that keeps every line has one view. -/
theorem old_eq_new_of_keeps (h : ∀ e ∈ s, e.action = .keep) : s.old = s.new := by
  induction s with
  | nil => rfl
  | cons e s ih =>
    have he := h e List.mem_cons_self
    rw [Script.old_cons, Script.new_cons, Edit.old_of_keep he, Edit.new_of_keep he,
      ih fun x hx => h x (List.mem_cons_of_mem e hx)]

end Counts

/-! ## 2. Hunks -/

/-- Whether a change is among blocks. -/
def HasChange (bs : List Block) : Prop := ∃ b ∈ bs, b.isChange = true

section Hunks

variable {n : Nat} {b : Block} {bs opened : List Block} {e : Edit} {s : Script}

theorem hasChange_cons : HasChange (b :: bs) ↔ b.isChange = true ∨ HasChange bs := by
  simp [HasChange]

-- A deletion or an insertion is a change, or lengthens one.
theorem hasChange_addRun : HasChange (addRun e bs) ↔ e.action ≠ .keep ∨ HasChange bs := by
  cases he : e.action with
  | keep =>
    cases bs with
    | nil => simp [addRun, he, hasChange_cons, Block.isChange]
    | cons b r => cases b <;> simp [addRun, he, hasChange_cons, Block.isChange]
  | delete =>
    cases bs with
    | nil => simp [addRun, he, hasChange_cons, Block.isChange]
    | cons b r => cases b <;> simp [addRun, he, hasChange_cons, Block.isChange]
  | insert =>
    cases bs with
    | nil => simp [addRun, he, hasChange_cons, Block.isChange]
    | cons b r => cases b <;> simp [addRun, he, hasChange_cons, Block.isChange]

theorem hasChange_blocks : HasChange (blocks s) ↔ ∃ e ∈ s, e.action ≠ .keep := by
  induction s with
  | nil => simp [blocks, HasChange]
  | cons e s ih =>
    have hb : blocks (e :: s) = addRun e (blocks s) := rfl
    rw [hb, hasChange_addRun, ih]
    simp

theorem hasChange_trimFirst : HasChange (trimFirst n bs) ↔ HasChange bs := by
  cases bs with
  | nil => exact Iff.rfl
  | cons b r => cases b <;> simp [trimFirst, hasChange_cons, Block.isChange]

theorem hasChange_trimLast : HasChange (trimLast n bs) ↔ HasChange bs := by
  induction bs with
  | nil => exact Iff.rfl
  | cons b r ih =>
    cases r with
    | nil => cases b <;> simp [trimLast, hasChange_cons, Block.isChange]
    | cons c r =>
      have ht : trimLast n (b :: c :: r) = b :: trimLast n (c :: r) := by
        cases b <;> rfl
      rw [ht, hasChange_cons, ih, ← hasChange_cons]

-- A change is in the hunk that is being filled, or in a later one.
theorem cut_ne_nil (h : HasChange opened ∨ HasChange bs) : cut n opened bs ≠ [] := by
  induction bs generalizing opened with
  | nil =>
    obtain ⟨b, hb, hc⟩ := h.resolve_right (by simp [HasChange])
    cases opened with
    | nil => exact absurd hb List.not_mem_nil
    | cons x r =>
      cases r with
      | nil =>
        rw [List.mem_singleton.1 hb] at hc
        cases x with
        | same ls i j => exact absurd hc (by simp [Block.isChange])
        | change ds is i j => simp [cut]
      | cons y r => simp [cut]
  | cons b r ih =>
    cases b with
    | change ds is i j =>
      rw [cut]
      · exact ih (Or.inl (hasChange_cons.2 (Or.inl rfl)))
      · simp
    | same ls i j =>
      rw [cut]
      split
      · exact List.cons_ne_nil _ _
      · apply ih
        rw [hasChange_cons] at h ⊢
        simpa [Block.isChange] using h

-- Kept lines only are one block.
theorem blocks_of_keeps (h : ∀ e ∈ s, e.action = .keep) :
    blocks s = [] ∨ ∃ ls i j, blocks s = [.same ls i j] := by
  induction s with
  | nil => exact Or.inl rfl
  | cons e s ih =>
    have he := h e List.mem_cons_self
    have hb : blocks (e :: s) = addRun e (blocks s) := rfl
    rw [hb]
    right
    rcases ih fun x hx => h x (List.mem_cons_of_mem e hx) with hs | ⟨ls, i, j, hs⟩
    · rw [hs]
      exact ⟨e.lines, e.oldAt, e.newAt, by simp [addRun, he]⟩
    · rw [hs]
      exact ⟨e.lines ++ ls, e.oldAt, e.newAt, by simp [addRun, he]⟩

theorem hunks_eq_nil : hunks n s = [] ↔ ∀ e ∈ s, e.action = .keep := by
  constructor
  · intro h e he
    refine Decidable.byContradiction fun hne => cut_ne_nil (Or.inr ?_) h
    rw [hasChange_trimLast, hasChange_trimFirst, hasChange_blocks]
    exact ⟨e, he, hne⟩
  · intro h
    unfold hunks
    rcases blocks_of_keeps h with hs | ⟨ls, i, j, hs⟩
    · rw [hs]
      rfl
    · -- at most `n` lines are left of the block, so it is not cut
      have hshort : ¬ 2 * n < ((ls.drop (ls.length - n)).take n).length := by
        rw [List.length_take]
        omega
      rw [hs, trimFirst, trimLast, cut, if_neg hshort]
      rfl

/-- A diff is empty exactly when its script keeps every line. -/
theorem unifiedText_eq_nil : unifiedText n s = [] ↔ ∀ e ∈ s, e.action = .keep := by
  rw [← hunks_eq_nil (n := n)]
  unfold unifiedText
  split
  · rename_i h
    exact iff_of_true rfl h
  · rename_i hne
    refine iff_of_false ?_ hne
    exact List.append_ne_nil_of_left_ne_nil (by decide) _

end Hunks

end Baselines.Diff
