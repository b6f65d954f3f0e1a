import Baselines.Proofs.Comparison.NormalForm

/-!
# Outputs that match are interchangeable

A mode compares the keys of outputs: the normal form in the exact mode, and in the normalized mode
the tokens of the normal form, or the normal form itself where it is no script. So matching is an
equivalence, whatever counts as a script and whatever its tokens are, and no script matches an output
that is none.
-/

namespace Baselines.Comparison

/-! ## 1. Keys -/

section Reader

variable (read : Text → Option (List Script.Token))

/-- What a mode compares of a normalized text: its tokens where they count, or else the text. -/
def key : Mode → Text → Text ⊕ List Script.Token
  | .exact, t => .inl t
  | .normalized, t => ((read t).map Sum.inr).getD (.inl t)

/-- Texts agree when they have one key. -/
theorem agreeBy_iff_key (mode : Mode) (s t : Text) :
    agreeBy read mode s t = true ↔ key read mode s = key read mode t := by
  cases mode with
  | exact => simp [agreeBy, key]
  | normalized =>
    cases hs : read s with
    | some ts =>
      cases ht : read t with
      | some us => simp [agreeBy, sameScriptBy, key, hs, ht]
      | none =>
        -- a text that is read and one that is not are not the same text
        have hne : s ≠ t := fun he => by simp [he, ht] at hs
        simp [agreeBy, sameScriptBy, key, hs, ht, hne]
    | none =>
      cases ht : read t with
      | some us =>
        have hne : s ≠ t := fun he => by simp [he, ht] at hs
        simp [agreeBy, sameScriptBy, key, hs, ht, hne]
      | none => simp [agreeBy, sameScriptBy, key, hs, ht]

/-- Outputs match when their normal forms have one key. -/
theorem isMatch_iff_key (mode : Mode) (s t : Text) :
    (compareBy read s t mode).isMatch = true ↔
      key read mode (normalize s) = key read mode (normalize t) := by
  rw [isMatch_compareBy, agreeBy_iff_key]

theorem key_of_some {t : Text} {ts : List Script.Token} (h : read t = some ts) :
    key read .normalized t = .inr ts := by simp [key, h]

theorem key_of_none {t : Text} (h : read t = none) : key read .normalized t = .inl t := by
  simp [key, h]

end Reader

/-- The comparison of outputs takes its tokens from the syntax of scripts. -/
theorem compareBy_tokens : compareBy Script.tokens? = compare := rfl

theorem agree_self (mode : Mode) (t : Text) : agree mode t t = true := by
  rw [agree, agreeBy_iff_key]

/-! ## 2. Matches -/

/-- In each mode matching is an equivalence on all outputs, an exact match is a match in the
normalized mode too, and there no script matches an output that is none: so it is for every reader
of tokens, and for the one that outputs are compared by. -/
theorem isMatch_equivalence (read : Text → Option (List Script.Token)) :
    (∀ mode, Equivalence fun s t => (compareBy read s t mode).isMatch = true) ∧
      (∀ s t, (compareBy read s t .exact).isMatch = true →
        (compareBy read s t .normalized).isMatch = true) ∧
      (∀ s t, read (normalize s) ≠ none → read (normalize t) = none →
        (compareBy read s t .normalized).isMatch = false ∧
          (compareBy read t s .normalized).isMatch = false) ∧
      compareBy Script.tokens? = compare := by
  refine ⟨fun mode => ?_, fun s t h => ?_, fun s t hs ht => ?_, compareBy_tokens⟩
  · simp only [isMatch_iff_key]
    exact InvImage.equivalence Eq (fun t => key read mode (normalize t)) eq_equivalence
  · rw [isMatch_iff_key] at h ⊢
    have hn : normalize s = normalize t := Sum.inl.inj h
    rw [hn]
  · obtain ⟨ts, hs⟩ := Option.ne_none_iff_exists'.1 hs
    have hne : key read .normalized (normalize s) ≠ key read .normalized (normalize t) := by
      rw [key_of_some read hs, key_of_none read ht]
      exact Sum.inr_ne_inl
    constructor
    · rw [Bool.eq_false_iff, ne_eq, isMatch_iff_key]
      exact hne
    · rw [Bool.eq_false_iff, ne_eq, isMatch_iff_key]
      exact hne.symm

end Baselines.Comparison
