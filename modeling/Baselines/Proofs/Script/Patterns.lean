import Baselines.Proofs.Script.Reading
import Baselines.Script.Pattern

/-!
# Texts of patterns

Turning expressions into patterns names their kinds anew; the texts of their tokens stay.
-/

namespace Baselines.Script

variable {source : Text}

/-- The kind of a tree does not matter to the texts of its tokens. -/
theorem texts_renamed {s s' : Shape} (hs : s.isInner = true) (hs' : s'.isInner = true) (i j : Nat)
    {cs cs' : List Node} (ht : texts source cs' = texts source cs) (he : cs' = [] ↔ cs = []) :
    texts source [.node (.named s') i j cs'] = texts source [.node (.named s) i j cs] := by
  by_cases hc : cs = []
  · have hc' := he.2 hc
    subst hc hc'
    exact (texts_leaf (isToken_of_isInner hs') i j).trans
      (texts_leaf (isToken_of_isInner hs) i j).symm
  · rw [texts_inner hs' i j (mt he.1 hc), texts_inner hs i j hc, ht]

/-- Whether trees are the same up to the kinds of some of them, as far as texts go. -/
structure Alike (source : Text) (ns ps : List Node) : Prop where
  texts : texts source ps = texts source ns
  length : ps.length = ns.length
  solid : (∃ n ∈ ns, n.isComment = false) → ∃ p ∈ ps, p.isComment = false

namespace Alike

variable {ns ps : List Node} {n p : Node}

theorem refl (ns : List Node) : Alike source ns ns := ⟨rfl, rfl, id⟩

theorem cons (hn : Script.texts source [p] = Script.texts source [n])
    (hp : p.isComment = n.isComment) (h : Alike source ns ps) :
    Alike source (n :: ns) (p :: ps) where
  texts := by rw [texts_cons, texts_cons n, hn, h.texts]
  length := by simp [h.length]
  solid := by
    rintro ⟨m, hm, hc⟩
    rcases List.mem_cons.1 hm with rfl | hm
    · exact ⟨p, by simp, hp.trans hc⟩
    · obtain ⟨q, hq, hqc⟩ := h.solid ⟨m, hm, hc⟩
      exact ⟨q, by simp [hq], hqc⟩

theorem eq_nil_iff (h : Alike source ns ps) : ps = [] ↔ ns = [] := by
  rw [← List.length_eq_zero_iff, h.length, List.length_eq_zero_iff]

theorem solid_of_solid (h : Alike source ns ps) (hs : Solid ns) : Solid ps :=
  hs.imp h.eq_nil_iff.2 h.solid

end Alike

/-- A tree with another kind, over parts that are alike. -/
theorem renamed {s : Shape} (s' : Shape) (i j : Nat) {cs ps : List Node}
    (hs : s.isInner = true) (hs' : s'.isInner = true) (h : Alike source cs ps) :
    texts source [.node (.named s') i j ps] = texts source [.node (.named s) i j cs] ∧
      (Node.node (.named s) i j cs).isComment = false ∧
      (Node.node (.named s') i j ps).isComment = false :=
  ⟨texts_renamed hs hs' i j h.texts h.eq_nil_iff,
    isComment_of_isToken (isToken_of_isInner hs) i j cs,
    isComment_of_isToken (isToken_of_isInner hs') i j ps⟩

/-- The same where the parts may not be what the kind takes. -/
theorem renamed_of_map {s : Shape} (s' : Shape) (i j : Nat) {cs : List Node} {p : Node}
    {found : Option (List Node)} (hs : s.isInner = true) (hs' : s'.isInner = true)
    (h : found.map (.node (.named s') i j) = some p)
    (hf : ∀ ps, found = some ps → Alike source cs ps) :
    texts source [p] = texts source [.node (.named s) i j cs] ∧
      (Node.node (.named s) i j cs).isComment = false ∧ p.isComment = false := by
  obtain ⟨ps, hp, rfl⟩ := Option.map_eq_some_iff.1 h
  exact renamed s' i j hs hs' (hf ps hp)

mutual

theorem pattern?_eq_some : ∀ {role : Role} {n p : Node}, Node.pattern? role n = some p →
    texts source [p] = texts source [n] ∧ n.isComment = false ∧ p.isComment = false
  | role, .node (.mark t) i j cs, p, h => by
    unfold Node.pattern? at h
    split at h <;> cases h
    have hm := isComment_of_isToken (k := .mark t) rfl i j cs
    exact ⟨rfl, hm, hm⟩
  | role, .node (.named s) i j cs, p, h => by
    unfold Node.pattern? at h
    split at h
    · split at h
      · cases h; exact renamed _ i j rfl rfl (.refl cs)
      · cases h; exact renamed _ i j rfl rfl (.refl cs)
      · exact renamed_of_map _ i j rfl rfl h fun ps hp => lastPattern?_eq_some hp
      · exact renamed_of_map _ i j rfl rfl h fun ps hp => patterns?_eq_some hp
      · cases h
    · cases h; exact renamed _ i j rfl rfl (.refl cs)
    · cases h; exact renamed _ i j rfl rfl (.refl cs)
    · cases h; exact renamed _ i j rfl rfl (.refl cs)
    · cases h; exact renamed _ i j rfl rfl (.refl cs)
    · cases h; exact renamed _ i j rfl rfl (.refl cs)
    · exact renamed_of_map _ i j rfl rfl h fun ps hp => patterns?_eq_some hp
    · exact renamed_of_map _ i j rfl rfl h fun ps hp => patterns?_eq_some hp
    · exact renamed_of_map _ i j rfl rfl h fun ps hp => patterns?_eq_some hp
    · split at h <;> cases h
      exact renamed _ i j rfl rfl (.refl cs)
    · cases h

theorem patterns?_eq_some : ∀ {role : Role} {ns ps : List Node},
    Node.patterns? role ns = some ps → Alike source ns ps
  | _, [], ps, h => by
    cases h
    exact .refl []
  | role, n :: r, ps, h => by
    unfold Node.patterns? at h
    split at h
    · obtain ⟨qs, hq, rfl⟩ := Option.map_eq_some_iff.1 h
      exact .cons rfl rfl (patterns?_eq_some hq)
    · split at h
      · next p qs hp hq =>
        cases h
        obtain ⟨ht, hn, hp⟩ := pattern?_eq_some hp
        exact .cons ht (hp.trans hn.symm) (patterns?_eq_some hq)
      · cases h

theorem lastPattern?_eq_some : ∀ {ns ps : List Node}, Node.lastPattern? ns = some ps →
    Alike source ns ps
  | [], ps, h => by cases h
  | [n], ps, h => by
    obtain ⟨p, hp, rfl⟩ := Option.map_eq_some_iff.1 h
    obtain ⟨ht, hn, hp⟩ := pattern?_eq_some hp
    exact .cons ht (hp.trans hn.symm) (.refl [])
  | n :: m :: r, ps, h => by
    obtain ⟨qs, hq, rfl⟩ := Option.map_eq_some_iff.1 h
    exact .cons rfl rfl (lastPattern?_eq_some hq)

end

end Baselines.Script
