import Baselines.Proofs.Discovery

/-!
# Walks in order

A walk finds the files below a folder in the order of their places, each once. So the files of a kind
are found alike on two disks that have files of that kind at the same places.
-/

namespace Baselines

/-! ## 1. The order of places -/

namespace Place

theorem before_cons {a b : Text} {p q : Place} : before (a :: p) (b :: q) = true ↔
    (a = b ∧ before p q = true) ∨ (a ≠ b ∧ Text.before a b = true) := by
  by_cases h : a = b <;> simp [before, h]

theorem before_total (p q : Place) : before p q = true ∨ before q p = true := by
  induction p generalizing q with
  | nil => exact Or.inl rfl
  | cons a p ih =>
    cases q with
    | nil => exact Or.inr rfl
    | cons b q =>
      rw [before_cons, before_cons]
      by_cases hab : a = b
      · exact (ih q).imp (fun h => Or.inl ⟨hab, h⟩) fun h => Or.inl ⟨hab.symm, h⟩
      · exact (Text.before_total a b).imp (fun h => Or.inr ⟨hab, h⟩) fun h => Or.inr ⟨Ne.symm hab, h⟩

theorem before_antisymm {p q : Place} (hpq : before p q = true) (hqp : before q p = true) :
    p = q := by
  induction p generalizing q with
  | nil =>
    cases q with
    | nil => rfl
    | cons b q => exact absurd hqp (by simp [before])
  | cons a p ih =>
    cases q with
    | nil => exact absurd hpq (by simp [before])
    | cons b q =>
      rw [before_cons] at hpq hqp
      rcases hpq with ⟨rfl, hpq⟩ | ⟨hne, hab⟩
      · rcases hqp with ⟨-, hqp⟩ | ⟨hne, -⟩
        · rw [ih hpq hqp]
        · exact absurd rfl hne
      · rcases hqp with ⟨hba, -⟩ | ⟨-, hba⟩
        · exact absurd hba.symm hne
        · exact absurd (Text.before_antisymm hab hba) hne

theorem before_trans {p q r : Place} (hpq : before p q = true) (hqr : before q r = true) :
    before p r = true := by
  induction p generalizing q r with
  | nil => rfl
  | cons a p ih =>
    cases q with
    | nil => exact absurd hpq (by simp [before])
    | cons b q =>
      cases r with
      | nil => exact absurd hqr (by simp [before])
      | cons c r =>
        rw [before_cons] at hpq hqr ⊢
        rcases hpq with ⟨rfl, hpq⟩ | ⟨hab, hpq⟩
        · exact hqr.imp_left fun h => ⟨h.1, ih hpq h.2⟩
        · rcases hqr with ⟨rfl, -⟩ | ⟨hbc, hqr⟩
          · exact Or.inr ⟨hab, hpq⟩
          · -- names that come back to where they began would all be one
            refine Or.inr ⟨?_, Text.before_trans hpq hqr⟩
            rintro rfl
            exact hab (Text.before_antisymm hpq hqr)

end Place

/-! ## 2. Files of a kind -/

namespace Disk

variable {d d' : Disk} {r : Place}

theorem mem_places_filesBelow {p : Place} : p ∈ (d.filesBelow r).map (·.1) ↔
    p ≠ [] ∧ ∃ bytes, d.node? (r ++ p) = some (.file bytes) := by
  constructor
  · intro h
    obtain ⟨f, hf, rfl⟩ := List.mem_map.1 h
    exact ⟨(mem_filesBelow hf).1, f.2, node?_filesBelow hf⟩
  · rintro ⟨hp, bytes, hn⟩
    exact List.mem_map.2 ⟨(p, bytes), mem_filesBelow_of_node? hp hn, rfl⟩

theorem sorted_filesBelow (d : Disk) (r : Place) :
    ((d.filesBelow r).map (·.1)).Pairwise fun p q => Place.before p q = true := by
  have htotal : ∀ a b : Place × Bytes, (Place.before a.1 b.1 || Place.before b.1 a.1) = true := by
    intro a b
    simpa using Place.before_total a.1 b.1
  have htrans : ∀ a b c : Place × Bytes, Place.before a.1 b.1 = true →
      Place.before b.1 c.1 = true → Place.before a.1 c.1 = true := fun _ _ _ => Place.before_trans
  rw [List.pairwise_map]
  exact List.pairwise_mergeSort htrans htotal _

/-- The files of a kind below a place are found alike where they are the same. -/
theorem filter_filesBelow {kind : Place → Bool} (h : ∀ p, p ≠ [] → kind p = true →
      ((∃ bytes, d'.node? (r ++ p) = some (.file bytes)) ↔
        ∃ bytes, d.node? (r ++ p) = some (.file bytes))) :
    ((d'.filesBelow r).map (·.1)).filter kind = ((d.filesBelow r).map (·.1)).filter kind := by
  have hperm : (((d'.filesBelow r).map (·.1)).filter kind).Perm
      (((d.filesBelow r).map (·.1)).filter kind) := by
    rw [List.perm_ext_iff_of_nodup ((nodup_filesBelow d' r).filter kind)
      ((nodup_filesBelow d r).filter kind)]
    intro p
    rw [List.mem_filter, List.mem_filter, mem_places_filesBelow, mem_places_filesBelow]
    exact and_congr_left fun hk => and_congr_right fun hp => h p hp hk
  exact List.Perm.eq_of_pairwise (fun _ _ _ _ => Place.before_antisymm)
    ((sorted_filesBelow d' r).filter kind) ((sorted_filesBelow d r).filter kind) hperm

end Disk

end Baselines
