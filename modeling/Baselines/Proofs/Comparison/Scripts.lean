import Baselines.Proofs.Comparison.NormalForm
import Baselines.Proofs.Script.Outlines
import Baselines.Proofs.Script.Statements

/-!
# Scripts that match

What the normalized mode says of two outputs that are scripts, whatever parser reads them. They match
if their trees have the same tokens. A grammar builds one tree of the tokens of a script and the
semicolons that it puts where a line end, or the end of a block, stands for one. So two outputs that
match have one tree, unless a semicolon is put in one of them where none is put in the other.
-/

namespace Baselines

namespace Script

/-! ## 1. Grammars and their parsers -/

/-- A grammar: the trees of scripts, with the automatic semicolons in them. -/
structure Grammar where
  /-- The tree of a script; none of a text that is no script. -/
  tree? : Text → Option Outline
  /-- Terminals have one tree at most. -/
  unambiguous : ∀ {s t : Text} {o p : Outline}, tree? s = some o → tree? t = some p →
    o.terminals = p.terminals → o = p

namespace Grammar

/-- Where a grammar puts semicolons among the tokens of a script. -/
def semicolons (g : Grammar) (s : Text) : Option (List Nat) := (g.tree? s).map Outline.semicolons

/-- Whether a parser builds the trees of a grammar. It hides their automatic semicolons, or shows them
as leaves that cover nothing. -/
def BuiltBy (g : Grammar) (hidden : Bool) (parse : Text → Option Node) : Prop :=
  ∀ s, (parse s).map (Node.outline s) = (g.tree? s).map (Outline.shown hidden)

variable {g : Grammar} {hidden : Bool} {parse : Text → Option Node} {s : Text} {t : Node}

theorem BuiltBy.exists_tree (h : g.BuiltBy hidden parse) (ht : parse s = some t) :
    ∃ o, g.tree? s = some o ∧ t.outline s = o.shown hidden := by
  have hs := h s
  rw [ht, Option.map_some] at hs
  obtain ⟨o, ho, he⟩ := Option.map_eq_some_iff.1 hs.symm
  exact ⟨o, ho, he.symm⟩

end Grammar

end Script

namespace Comparison

open Script

/-! ## 2. The normalized mode -/

section Parser

variable {parse : Text → Option Script.Node} {expected actual : Text} {t u : Script.Node}

theorem isMatch_tokens (ht : parse (normalize expected) = some t)
    (hu : parse (normalize actual) = some u) :
    (compareBy (tokensBy parse) expected actual .normalized).isMatch = true ↔
      t.tokens (normalize expected) = u.tokens (normalize actual) := by
  rw [isMatch_compareBy, agreeBy]
  simp [sameScriptBy, tokensBy, ht, hu]

/-- For the parser in use, two scripts that match are layouts of the same words: only blanks and
comments differ between them. -/
theorem layout_of_isMatch (ht : parse? (normalize expected) = some t)
    (hu : parse? (normalize actual) = some u)
    (h : (compare expected actual .normalized).isMatch = true) :
    ∃ ws, Layout ws (normalize expected) ∧ Layout ws (normalize actual) := by
  have hs := (isMatch_tokens ht hu).1 h
  refine ⟨_, layout_of_parse? ht, ?_⟩
  rw [hs]
  exact layout_of_parse? hu

end Parser

/-! ## 3. Two layouts of one script -/

-- A sign on a line of its own belongs to what comes after it.
def tightLines : Text := "a\n++b"

def spreadLines : Text := "// c\na\n\n++ b"

-- The trees of the two, whose semicolons are hidden.
def linesParser (s : Text) : Option Script.Node :=
  let statement (i j : Nat) (parts : List Script.Node) :=
    Script.Node.node (.named .expressionStatement) i j parts
  let name (i : Nat) := Script.Node.leaf (.named .identifier) i (i + 1)
  let sum (i j : Nat) :=
    statement i (j + 1) [.node (.named .update) i (j + 1) [.leaf (.mark "++") i (i + 2), name j]]
  if s = tightLines then some (.node (.named .program) 0 5 [statement 0 1 [name 0], sum 2 4])
  else if s = spreadLines then
    some (.node (.named .program) 0 12
      [.leaf (.named .comment) 0 4, statement 5 6 [name 5], sum 8 11])
  else none

def leafOutline (k : Kind) (t : Text) : Outline := .whole k [⟨k.label, t⟩] []

-- The tree that both have, with its semicolons.
def linesOutline : Outline :=
  .inner (.named .program)
    [.inner (.named .expressionStatement) [leafOutline (.named .identifier) "a", .semicolon],
      .inner (.named .expressionStatement)
        [.inner (.named .update) [leafOutline (.mark "++") "++", leafOutline (.named .identifier) "b"],
          .semicolon]]

def linesGrammar : Grammar where
  tree? s := if s = tightLines ∨ s = spreadLines then some linesOutline else none
  unambiguous := by
    intro s t o p ho hp _
    split at ho <;> split at hp <;> simp_all

theorem builtBy_linesParser : linesGrammar.BuiltBy true linesParser := by
  intro s
  by_cases ht : s = tightLines
  · subst ht
    rfl
  by_cases hs : s = spreadLines
  · subst hs
    rfl
  · simp [linesParser, linesGrammar, ht, hs]

-- Texts that a line end tells apart.
def returnLine : Text := "return x"

def returnLines : Text := "return\nx"

-- The trees of the two, whose semicolons are hidden.
def returnParser (s : Text) : Option Script.Node :=
  let name := Script.Node.leaf (.named .identifier) 7 8
  let word := Script.Node.leaf (.mark "return") 0 6
  if s = returnLine then
    some (.node (.named .program) 0 8 [.node (.named .returnStatement) 0 8 [word, name]])
  else if s = returnLines then
    some (.node (.named .program) 0 8
      [.node (.named .returnStatement) 0 6 [word],
        .node (.named .expressionStatement) 7 8 [name]])
  else none

def returnLineOutline : Outline :=
  .inner (.named .program) [.inner (.named .returnStatement)
    [leafOutline (.mark "return") "return", leafOutline (.named .identifier) "x", .semicolon]]

def returnLinesOutline : Outline :=
  .inner (.named .program)
    [.inner (.named .returnStatement) [leafOutline (.mark "return") "return", .semicolon],
      .inner (.named .expressionStatement) [leafOutline (.named .identifier) "x", .semicolon]]

def returnGrammar : Grammar where
  tree? s :=
    if s = returnLine then some returnLineOutline
    else if s = returnLines then some returnLinesOutline
    else none
  unambiguous := by
    have hne : returnLineOutline.terminals ≠ returnLinesOutline.terminals := by decide +kernel
    have hcases : ∀ {s : Text} {o : Outline},
        (if s = returnLine then some returnLineOutline
          else if s = returnLines then some returnLinesOutline else none) = some o →
        o = returnLineOutline ∨ o = returnLinesOutline := by
      intro s o h
      split at h
      · exact .inl (Option.some.inj h).symm
      split at h
      · exact .inr (Option.some.inj h).symm
      · cases h
    intro s t o p ho hp h
    rcases hcases ho with rfl | rfl <;> rcases hcases hp with rfl | rfl
    · rfl
    · exact absurd h hne
    · exact absurd h.symm hne
    · rfl

theorem builtBy_returnParser : returnGrammar.BuiltBy true returnParser := by
  intro s
  by_cases ht : s = returnLine
  · subst ht
    rfl
  by_cases hs : s = returnLines
  · subst hs
    rfl
  · simp [returnParser, returnGrammar, ht, hs]

-- The parser in use does not tell the two apart either.
example : (compare "return\nx" "return x" .normalized).isMatch = true := by decide +kernel

end Comparison

end Baselines
