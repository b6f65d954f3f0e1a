import Baselines.Script.Tokens

/-!
# Outlines of trees

What is left of a tree without its comments and places: the kinds of its nodes, how they nest, and
the texts of its leaves. Read from left to right, an outline gives terminals: the tokens of the
script, and semicolons where none are written. The tokens that a tree is flattened to are those of
its outline.
-/

namespace Baselines.Script

/-! ## 1. Terminals -/

/-- What a script consists of for a grammar: tokens, and semicolons that are not written but meant. -/
inductive Terminal where
  | token (t : Token)
  | semicolon
  deriving DecidableEq

namespace Terminal

def token? : Terminal → Option Token
  | token t => some t
  | semicolon => none

/-- The tokens among terminals. -/
def tokens (us : List Terminal) : List Token := us.filterMap token?

/-- For each automatic semicolon, the number of tokens before it. -/
def semicolons : List Terminal → List Nat
  | [] => []
  | semicolon :: r => 0 :: semicolons r
  | token _ :: r => (semicolons r).map (· + 1)

theorem tokens_append (us vs : List Terminal) : tokens (us ++ vs) = tokens us ++ tokens vs :=
  List.filterMap_append

theorem tokens_map_token (ts : List Token) : tokens (ts.map token) = ts := by
  rw [tokens, List.filterMap_map]
  exact List.filterMap_some

-- A token stands before every semicolon of what begins with it.
theorem semicolons_token_ne (t : Token) (us : List Terminal) (ns : List Nat) :
    semicolons (token t :: us) ≠ 0 :: ns := by
  intro h
  have hz : 0 ∈ (semicolons us).map (· + 1) := by
    rw [show (semicolons us).map (· + 1) = 0 :: ns from h]
    exact List.mem_cons_self
  simp at hz

/-- Terminals are told from others by their tokens and by where their automatic semicolons stand. -/
theorem eq_of_tokens_of_semicolons : ∀ {us vs : List Terminal}, tokens us = tokens vs →
    semicolons us = semicolons vs → us = vs
  | [], [], _, _ => rfl
  | [], semicolon :: _, _, h | semicolon :: _, [], _, h => absurd h (by simp [semicolons])
  | [], token _ :: _, h, _ | token _ :: _, [], h, _ => absurd h (by simp [tokens, token?])
  | semicolon :: _, token t :: vs, _, h => absurd h.symm (semicolons_token_ne t vs _)
  | token t :: us, semicolon :: _, _, h => absurd h (semicolons_token_ne t us _)
  | semicolon :: us, semicolon :: vs, ht, hs => by
    have ht : tokens us = tokens vs := ht
    rw [eq_of_tokens_of_semicolons ht (List.cons.inj hs).2]
  | token t :: us, token u :: vs, ht, hs => by
    obtain ⟨he, ht⟩ := List.cons.inj (show t :: tokens us = u :: tokens vs from ht)
    have hs : semicolons us = semicolons vs :=
      (List.map_inj_right fun _ _ h => Nat.succ.inj h).1 hs
    rw [he, eq_of_tokens_of_semicolons ht hs]

end Terminal

/-! ## 2. Outlines -/

/-- A tree without comments and places. -/
inductive Outline where
  /-- An automatic semicolon. -/
  | semicolon
  /-- A part that is one token, or none where it covers nothing, whatever its own parts. -/
  | whole (kind : Kind) (tokens : List Token) (parts : List Outline)
  | inner (kind : Kind) (parts : List Outline)

namespace Outline

def isSemicolon : Outline → Bool
  | semicolon => true
  | _ => false

def parts : Outline → List Outline
  | semicolon => []
  | whole _ _ ps | inner _ ps => ps

mutual

/-- The terminals of an outline in order. -/
def terminals : Outline → List Terminal
  | semicolon => [.semicolon]
  | whole _ ts _ => ts.map .token
  | inner _ parts => allTerminals parts

def allTerminals : List Outline → List Terminal
  | [] => []
  | o :: r => terminals o ++ allTerminals r

end

/-- The tokens of an outline in order. -/
def tokens (o : Outline) : List Token := Terminal.tokens o.terminals

/-- Where the automatic semicolons of an outline stand among its tokens. -/
def semicolons (o : Outline) : List Nat := Terminal.semicolons o.terminals

mutual

/-- The outline as it is where automatic semicolons are hidden. -/
def concealed : Outline → Outline
  | inner k parts => inner k (allConcealed parts)
  | o => o

def allConcealed : List Outline → List Outline
  | [] => []
  | o :: r => if o.isSemicolon then allConcealed r else concealed o :: allConcealed r

end

/-- The outline that a parser shows which hides automatic semicolons, or does not. -/
def shown (hidden : Bool) (o : Outline) : Outline := if hidden then o.concealed else o

mutual

theorem tokens_concealed : ∀ o : Outline, o.concealed.tokens = o.tokens
  | semicolon => rfl
  | whole _ _ _ => rfl
  | inner _ parts => tokens_allConcealed parts

theorem tokens_allConcealed : ∀ os : List Outline,
    Terminal.tokens (allTerminals (allConcealed os)) = Terminal.tokens (allTerminals os)
  | [] => rfl
  | o :: r => by
    rw [allConcealed, allTerminals, Terminal.tokens_append, ← tokens_allConcealed r]
    split
    · cases o with
      | semicolon => rfl
      | whole => contradiction
      | inner => contradiction
    · rw [allTerminals, Terminal.tokens_append]
      exact congrArg (· ++ _) (tokens_concealed o)

end

theorem tokens_shown (hidden : Bool) (o : Outline) : (o.shown hidden).tokens = o.tokens := by
  cases hidden
  · rfl
  · exact tokens_concealed o

end Outline

/-! ## 3. Outlines of trees -/

namespace Node

variable (source : Text)

-- The literal part of a template from one place up to another, with the trees in it.
def literalPart (start stop : Nat) (held : List Outline) : Outline :=
  .whole (.mark chunkKind) (tokenOf source chunkKind start stop) held

mutual

/-- The outline of a tree over a text. A node that covers nothing and has no parts is an automatic
semicolon, or else a node without parts. -/
def outline : Node → Outline
  | node k i j cs =>
    if (node k i j cs).isComment then .inner k []
    else if k = .named .templateString then .inner k (pieces i j [] cs)
    else if (node k i j cs).isWhole then
      if i = j ∧ cs.isEmpty then
        if k = .named .automaticSemicolon then .semicolon else .inner k []
      else .whole k (tokenOf source k.label i j) (outlines cs)
    else .inner k (outlines cs)

/-- The outlines of trees, comments left out. -/
def outlines : List Node → List Outline
  | [] => []
  | n :: r => if n.isComment then outlines r else outline n :: outlines r

-- The parts of a template whose next literal part begins at `start` and has `held` in it so far.
def pieces (start stop : Nat) (held : List Outline) : List Node → List Outline
  | [] => [literalPart source start stop held]
  | n :: r =>
    if n.is .templateSubstitution then
      literalPart source start n.start held :: outline n :: pieces n.stop stop [] r
    else if n.isComment then pieces start stop held r
    else pieces start stop (held ++ [outline n]) r

end

theorem tokens_literalPart (start stop : Nat) (held : List Outline) :
    (literalPart source start stop held).tokens = tokenOf source chunkKind start stop :=
  Terminal.tokens_map_token _

mutual

/-- A tree is flattened to the tokens of its outline. -/
theorem tokens_outline : ∀ n : Node, (n.outline source).tokens = n.tokens source
  | node k i j cs => by
    unfold outline tokens
    split
    · rfl
    split
    · exact tokens_pieces i j [] cs
    split
    · split
      · rename_i h
        rw [tokenOf, if_pos h.1]
        split <;> rfl
      · exact Terminal.tokens_map_token _
    · exact tokens_outlines cs

theorem tokens_outlines : ∀ ns : List Node,
    Terminal.tokens (Outline.allTerminals (outlines source ns)) = allTokens source ns
  | [] => rfl
  | n :: r => by
    rw [allTokens, ← tokens_outlines r, ← tokens_outline n, outlines]
    split
    · -- a comment has no tokens
      rename_i h
      obtain ⟨k, i, j, cs⟩ := n
      rw [outline, if_pos h]
      rfl
    · exact Terminal.tokens_append _ _

theorem tokens_pieces (start stop : Nat) (held : List Outline) : ∀ ns : List Node,
    Terminal.tokens (Outline.allTerminals (pieces source start stop held ns)) =
      chunks source start stop ns
  | [] => by
    rw [pieces, Outline.allTerminals, Outline.allTerminals, List.append_nil]
    exact tokens_literalPart source start stop held
  | n :: r => by
    unfold pieces chunks
    split
    · rw [Outline.allTerminals, Outline.allTerminals, Terminal.tokens_append,
        Terminal.tokens_append, tokens_pieces n.stop stop [] r, ← tokens_outline n]
      exact congrArg (· ++ _) (tokens_literalPart source start n.start held)
    · split
      · exact tokens_pieces start stop held r
      · exact tokens_pieces start stop _ r

end

end Node

end Baselines.Script
