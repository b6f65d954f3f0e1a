import Baselines.Proofs.Script.Expressions

/-!
# What the rule of templates reads

The literal parts of a template are taken from the text as they stand, from one substitution to the
next, so that nothing between them is passed over.
-/

namespace Baselines.Script

variable {source : Text} {rules : Rules}

/-! ## 1. Parts of a template -/

/-- Parts of a template that a literal part begins at one place and that end at another: each
substitution is a layout of its stretch. -/
inductive Pieces (source : Text) : Nat → List Node → Nat → Prop where
  | nil {i j : Nat} (h : i ≤ j) : Pieces source i [] j
  | literal {i j : Nat} {n : Node} {r : List Node} (hn : n.is .templateSubstitution = false)
      (hr : Pieces source i r j) : Pieces source i (n :: r) j
  | substitution {i j : Nat} {n : Node} {r : List Node} (hn : n.is .templateSubstitution = true)
      (hi : i ≤ n.start) (hs : n.start ≤ n.stop)
      (hl : Layout (texts source [n]) (slice source n.start n.stop))
      (hr : Pieces source n.stop r j) : Pieces source i (n :: r) j

namespace Pieces

variable {i j k : Nat} {n : Node} {ns : List Node}

theorem le (h : Pieces source i ns j) : i ≤ j := by
  induction h with
  | nil h => exact h
  | literal _ _ ih => exact ih
  | substitution _ hi hs _ _ ih => exact Nat.le_trans hi (Nat.le_trans hs ih)

/-- A literal part may reach beyond the last substitution. -/
theorem append_literal (h : Pieces source i ns k) (hk : k ≤ j)
    (hn : n.is .templateSubstitution = false) : Pieces source i (ns ++ [n]) j := by
  induction h with
  | nil h => exact .literal hn (.nil (Nat.le_trans h hk))
  | literal hm _ ih => exact .literal hm (ih hk)
  | substitution hm hi hs hl _ ih => exact .substitution hm hi hs hl (ih hk)

/-- A substitution begins where what is before it ends. -/
theorem append_substitution (h : Pieces source i ns k) (hk : k = n.start)
    (hn : n.is .templateSubstitution = true) (hs : n.start ≤ n.stop)
    (hl : Layout (texts source [n]) (slice source n.start n.stop)) :
    Pieces source i (ns ++ [n]) n.stop := by
  induction h with
  | nil h => exact .substitution hn (hk ▸ h) hs hl (.nil (Nat.le_refl _))
  | literal hm _ ih => exact .literal hm (ih hk)
  | substitution hm hi hs hl _ ih => exact .substitution hm hi hs hl (ih hk)

end Pieces

theorem layout_tokenOf (source kind : Text) (i j : Nat) :
    Layout ((tokenOf source kind i j).map Token.text) (slice source i j) := by
  unfold tokenOf
  split
  · next h => rw [h, slice_self]; exact .gap .nil
  · exact .single _

/-- A template is a layout of its literal parts and of what its substitutions hold. -/
theorem layout_chunks {i j : Nat} {ns : List Node} (h : Pieces source i ns j) :
    Layout ((Node.chunks source i j ns).map Token.text) (slice source i j) := by
  induction h with
  | nil => exact layout_tokenOf ..
  | literal hn _ ih =>
    rw [Node.chunks, hn]
    exact ih
  | @substitution i j n r hn hi hs hl hr ih =>
    rw [Node.chunks, if_pos hn, List.map_append, List.map_append,
      ← slice_append hi (Nat.le_trans hs hr.le), ← slice_append hs hr.le]
    refine (layout_tokenOf ..).append (.append ?_ ih)
    simpa [texts, Node.allTokens] using hl

/-- A template is read from its first quote up to behind its last. -/
theorem reads_template {c d : Cursor} {parts : List Node} (hd : On source d)
    (h : Pieces source c.pos parts d.pos) :
    Reads source c [.node (.named .templateString) c.pos d.pos parts] d := by
  have hc : (Node.node (.named .templateString) c.pos d.pos parts).isComment = false := by
    simp [Node.isComment, Node.is, Node.kind]
  refine ⟨h.le, hd, ?_, .inr ⟨_, List.mem_singleton_self _, hc⟩⟩
  simpa [texts, Node.allTokens, Node.tokens, hc] using layout_chunks h

/-! ## 2. Rules within a template -/

theorem lexemeHere_eq_some {shape : Shape} {length? : Text → Option Nat} {c d : Cursor}
    {xs : List Node} (h : lexemeHere shape length? c = some (xs, d)) :
    ∃ n, xs = [.leaf (.named shape) c.pos (c.pos + n)] ∧ d = c.skip n := by
  obtain ⟨n, -, he⟩ := Option.map_eq_some_iff.1 h
  cases he
  exact ⟨n, rfl, rfl⟩

theorem markHere_eq_some {m : Text} {c d : Cursor} {xs : List Node}
    (h : markHere m c = some (xs, d)) :
    xs = [.leaf (.mark m) c.pos (c.pos + m.length)] ∧ d = c.skip m.length := by
  unfold markHere at h
  split at h <;> cases h
  exact ⟨rfl, rfl⟩

namespace Covers

theorem lexemeHere {shape : Shape} (hs : (Kind.named shape).isToken = true)
    (length? : Text → Option Nat) : Covers source (lexemeHere shape length?) := by
  intro c d xs hc h
  obtain ⟨n, rfl, rfl⟩ := lexemeHere_eq_some h
  exact .leaf hc hs n

theorem markHere (m : Text) : Covers source (markHere m) := by
  intro c d xs hc h
  obtain ⟨rfl, rfl⟩ := markHere_eq_some h
  exact .leaf hc rfl _

end Covers

/-! ## 3. Templates -/

section

variable (hr : ∀ g, Covers source (rules g))
include hr

-- A substitution begins where it stands: no comment comes before its mark.
theorem substitution_append {i : Nat} {ns ys : List Node} {c d : Cursor} (hc : On source c)
    (hp : Pieces source i ns c.pos)
    (h : tree .templateSubstitution
      (Rule.all [markHere ['$', '{'], expressions rules .brackets, closing ['}']]) c =
        some (ys, d)) :
    On source d ∧ Pieces source i (ns ++ ys) d.pos := by
  have hread : Covers source (tree .templateSubstitution
      (Rule.all [markHere ['$', '{'], expressions rules .brackets, closing ['}']])) :=
    .tree rfl (.all ⟨.markHere _, .expressions hr _, .closing _, trivial⟩)
  have hy := hread hc h
  obtain ⟨xs, hx, rfl⟩ := tree_eq_some.1 h
  obtain ⟨zs, e, us, hz, -, rfl⟩ := both_eq_some.1 hx
  obtain ⟨rfl, rfl⟩ := markHere_eq_some hz
  rw [List.singleton_append, ← List.nil_append (_ :: us),
    enclosed_eq _ (by simp) (by simp [Node.isComment, Node.is, Node.leaf, Node.kind])] at hy ⊢
  exact ⟨hy.on, hp.append_substitution rfl (by simp [Node.is, Node.kind]) hy.le hy.layout⟩

theorem piece_append {i : Nat} {ns ys : List Node} {c d : Cursor}
    {length? : Text → Option Nat} (hc : On source c) (hp : Pieces source i ns c.pos)
    (h : Rule.any [lexemeHere .stringFragment length?, lexemeHere .escapeSequence escapeLength?,
      tree .templateSubstitution
        (Rule.all [markHere ['$', '{'], expressions rules .brackets, closing ['}']])] c =
          some (ys, d)) :
    On source d ∧ Pieces source i (ns ++ ys) d.pos := by
  rcases or_eq_some h with h | h
  · obtain ⟨n, rfl, rfl⟩ := lexemeHere_eq_some h
    exact ⟨hc.skip n, hp.append_literal (Nat.le_add_right ..)
      (by simp [Node.is, Node.leaf, Node.kind])⟩
  rcases or_eq_some h with h | h
  · obtain ⟨n, rfl, rfl⟩ := lexemeHere_eq_some h
    exact ⟨hc.skip n, hp.append_literal (Nat.le_add_right ..)
      (by simp [Node.is, Node.leaf, Node.kind])⟩
  rcases or_eq_some h with h | h
  · exact substitution_append hr hc hp h
  · cases h

/-- A template covers all of its text, blanks in its literal parts included. -/
theorem Covers.templateAfter (seam : Seam) : Covers source (templateAfter rules seam) := by
  intro c d xs hc h
  obtain ⟨ys, hy, rfl⟩ := tree_eq_some.1 h
  obtain ⟨os, c1, zs, ho, hz, rfl⟩ := both_eq_some.1 hy
  obtain ⟨ps, c2, us, hps, hu, rfl⟩ := both_eq_some.1 hz
  obtain ⟨qs, c3, vs, hq, hv, rfl⟩ := both_eq_some.1 hu
  cases hv
  obtain ⟨rfl, rfl⟩ := markHere_eq_some hq
  unfold Script.markAfter at ho
  obtain ⟨a, k, n, ha, hk, rfl, rfl⟩ := leafAt_eq_some ho
  obtain ⟨hm, hp⟩ := approach_eq_some hc ha
  split at hk <;> cases hk
  -- the parts from the opening mark on, as far as they have been read
  have hopen : Pieces source a.token.pos [.leaf (.mark ['\x60']) a.token.pos (a.token.pos + 1)]
      (a.token.pos + 1) :=
    .literal (by simp [Node.is, Node.leaf, Node.kind]) (.nil (Nat.le_add_right ..))
  obtain ⟨hon, hparts⟩ := many_invariant
    (P := fun xs e => On source e ∧ Pieces source a.token.pos
      ([.leaf (.mark ['\x60']) a.token.pos (a.token.pos + 1)] ++ xs) e.pos)
    (fun hx hy => by simpa using piece_append hr hx.1 hx.2 hy) ⟨hp.on.skip _, hopen⟩ hps
  have hall := hparts.append_literal (n := .leaf (.mark ['\x60']) c2.pos (c2.pos + 1))
    (Nat.le_add_right _ 1) (by simp [Node.is, Node.leaf, Node.kind])
  rw [List.append_nil, List.append_assoc, List.singleton_append,
    enclosed_eq _ hm (by simp [Node.isComment, Node.is, Node.leaf, Node.kind])]
  exact (reads_template (hon.skip 1) hall).after_comments hm hp (by simp)

end

end Baselines.Script
