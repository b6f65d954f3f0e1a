import Baselines.Text.Basic

/-!
# Parts of a text

Where a text begins or ends, and what stands somewhere in it, said of lists. What replacing a part makes
of a text, from its start on.
-/

namespace Baselines.Text

variable {t p : Text}

theorem startsWith_eq_true_iff : startsWith t p = true ↔ p <+: t := by
  unfold startsWith
  rw [Option.isSome_iff_exists]
  simp only [dropLead?_eq_some]
  exact exists_congr fun _ => eq_comm

theorem endsWith_eq_true_iff : endsWith t p = true ↔ p <:+ t := by
  unfold endsWith
  rw [Option.isSome_iff_exists]
  simp only [dropTail?_eq_some]
  exact exists_congr fun _ => eq_comm

theorem hasPart_eq_true_iff : hasPart p t = true ↔ p <:+: t := by
  induction t with
  | nil => simp [hasPart]
  | cons x t ih => rw [hasPart, Bool.or_eq_true, startsWith_eq_true_iff, ih, List.infix_cons_iff]

/-- What a text begins with is told before a character that does not stand in it. -/
theorem prefix_append_cons_iff {b u : Text} {c : Char} (hc : c ∉ p) :
    p <+: b ++ c :: u ↔ p <+: b := by
  refine ⟨fun h => ?_, fun h => h.trans (List.prefix_append b _)⟩
  rcases Nat.lt_or_ge b.length p.length with hlt | hle
  · have hb : b ++ [c] <+: p := by
      refine List.prefix_of_prefix_length_le ⟨u, by simp⟩ h ?_
      rw [List.length_append, List.length_singleton]
      exact hlt
    exact absurd (hb.subset (by simp)) hc
  · exact List.prefix_of_prefix_length_le h (List.prefix_append b _) hle

/-! ## Replacing -/

variable {k : Text}

theorem replace_cons {x : Char} (h : ¬ k <+: x :: t) (v : Text) :
    replace k v (x :: t) = x :: replace k v t :=
  if_neg fun hp => h (startsWith_eq_true_iff.1 hp)

theorem replaceFrom_length (k v a t : Text) :
    replaceFrom k v a.length (a ++ t) = replace k v t := by
  induction a with
  | nil => rfl
  | cons x a ih => exact ih

theorem replace_self_append (hk : k ≠ []) (v t : Text) :
    replace k v (k ++ t) = v ++ replace k v t := by
  obtain ⟨x, k, rfl⟩ := List.exists_cons_of_ne_nil hk
  have hp : startsWith (x :: (k ++ t)) (x :: k) = true :=
    startsWith_eq_true_iff.2 (List.prefix_append (x :: k) t)
  calc replace (x :: k) v (x :: k ++ t)
      = v ++ replaceFrom (x :: k) v k.length (k ++ t) := if_pos hp
    _ = v ++ replace (x :: k) v t := by rw [replaceFrom_length]

theorem replace_eq_self (h : ¬ k <:+: t) (v : Text) : replace k v t = t := by
  induction t with
  | nil => rfl
  | cons x t ih =>
    rw [List.infix_cons_iff, not_or] at h
    rw [replace_cons h.1, ih h.2]

end Baselines.Text
