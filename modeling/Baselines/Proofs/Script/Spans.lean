import Baselines.Script.Tokens
import Mathlib.Data.List.Pairwise

/-!
# Where tokens stand

The tokens of a tree stand one after the other in its text. What no token covers is a comment, or
belongs to nothing that carries text: not to a leaf, nor to a string, a regular expression, a number
or the literal part of a template, however deep the template stands in others.
-/

namespace Baselines.Script

/-- The place of a token: from one character up to another. -/
structure Span where
  kind : Text
  start : Nat
  stop : Nat
  deriving DecidableEq, Repr

namespace Span

def token (source : Text) (s : Span) : Token := ⟨s.kind, slice source s.start s.stop⟩

def Covers (s : Span) (p : Nat) : Prop := s.start ≤ p ∧ p < s.stop

end Span

-- The place of the token over a part of a text; an empty part has none.
def spanOf (kind : Text) (start stop : Nat) : List Span :=
  if start = stop then [] else [⟨kind, start, stop⟩]

namespace Node

/-! ## 1. Places in trees -/

mutual

/-- The places of the tokens of a tree. -/
def spans : Node → List Span
  | node k i j cs =>
    if (node k i j cs).isComment then []
    else if k = .named .templateString then chunkSpans i j cs
    else if (node k i j cs).isWhole then spanOf k.label i j
    else allSpans cs

def allSpans : List Node → List Span
  | [] => []
  | n :: r => spans n ++ allSpans r

-- The places in a template whose next literal part begins at `start`.
def chunkSpans (start stop : Nat) : List Node → List Span
  | [] => spanOf chunkKind start stop
  | n :: r =>
    if n.is .templateSubstitution then
      spanOf chunkKind start n.start ++ (spans n ++ chunkSpans n.stop stop r)
    else chunkSpans start stop r

end

mutual

/-- Whether the parts of a tree stand in it, in order and without overlap, and their parts too. -/
def isNested : Node → Bool
  | node _ i j cs => areNested i j cs

-- Whether trees stand in order between two places.
def areNested (i j : Nat) : List Node → Bool
  | [] => i ≤ j
  | n :: r => decide (i ≤ n.start) && isNested n && areNested n.stop j r

end

def Covers (n : Node) (p : Nat) : Prop := n.start ≤ p ∧ p < n.stop

/-- Whether a tree is another one or a part of it, at any depth. -/
inductive Has : Node → Node → Prop where
  | self (n : Node) : Has n n
  | part {n c m : Node} (hc : c ∈ n.children) (h : Has c m) : Has n m

/-- Whether a tree is another one or a part of it, and no comment holds it. -/
inductive Shows : Node → Node → Prop where
  | self {n : Node} (hn : n.isComment = false) : Shows n n
  | part {n c m : Node} (hn : n.isComment = false) (hc : c ∈ n.children) (h : Shows c m) : Shows n m

/-- Whether a place is in the literal part of a template: in none of its substitutions. -/
def Literal (n : Node) (p : Nat) : Prop :=
  n.is .templateString = true ∧ n.Covers p ∧
    ∀ c ∈ n.children, c.is .templateSubstitution = true → ¬ c.Covers p

variable {n m c d : Node} {cs : List Node} {i j p start stop : Nat}

/-! ## 2. Tokens and their places -/

/-- A token is read over its span. -/
theorem tokenOf_eq_map_spanOf (source : Text) (kind : Text) (start stop : Nat) :
    tokenOf source kind start stop = (spanOf kind start stop).map (Span.token source) := by
  unfold tokenOf spanOf
  split <;> rfl

mutual

/-- The tokens are what stands at their places. -/
theorem tokens_eq_map_spans (source : Text) : ∀ n : Node,
    n.tokens source = n.spans.map (Span.token source)
  | node k i j cs => by
    unfold tokens spans
    split
    · rfl
    split
    · exact chunks_eq_map_spans source i j cs
    split
    · exact tokenOf_eq_map_spanOf source _ i j
    · exact allTokens_eq_map_spans source cs

theorem allTokens_eq_map_spans (source : Text) : ∀ cs : List Node,
    allTokens source cs = (allSpans cs).map (Span.token source)
  | [] => rfl
  | n :: r => by
    rw [allTokens, allSpans, List.map_append, tokens_eq_map_spans source n,
      allTokens_eq_map_spans source r]

theorem chunks_eq_map_spans (source : Text) (start stop : Nat) : ∀ cs : List Node,
    chunks source start stop cs = (chunkSpans start stop cs).map (Span.token source)
  | [] => tokenOf_eq_map_spanOf source _ start stop
  | n :: r => by
    unfold chunks chunkSpans
    split
    · rw [List.map_append, List.map_append, tokenOf_eq_map_spanOf, tokens_eq_map_spans source n,
        chunks_eq_map_spans source n.stop stop r]
    · exact chunks_eq_map_spans source start stop r

end

/-! ## 3. Order -/

/-- Whether places stand in order between two, none of them empty. -/
def InOrder (i j : Nat) : List Span → Prop
  | [] => i ≤ j
  | s :: r => i ≤ s.start ∧ s.start < s.stop ∧ InOrder s.stop j r

namespace InOrder

variable {ss ts : List Span} {s : Span}

theorem of_le (hi : i ≤ start) (h : InOrder start j ss) : InOrder i j ss := by
  cases ss with
  | nil => exact Nat.le_trans hi h
  | cons s r => exact ⟨Nat.le_trans hi h.1, h.2⟩

/-- Spans in order up to a place and from it on are in order. -/
theorem append (hs : InOrder i j ss) (ht : InOrder j stop ts) : InOrder i stop (ss ++ ts) := by
  induction ss generalizing i with
  | nil => exact of_le hs ht
  | cons s r ih => exact ⟨hs.1, hs.2.1, ih hs.2.2⟩

theorem le (h : InOrder i j ss) : i ≤ j := by
  induction ss generalizing i with
  | nil => exact h
  | cons s r ih => exact Nat.le_trans h.1 (Nat.le_trans (Nat.le_of_lt h.2.1) (ih h.2.2))

/-- Each of spans in order lies within their bounds and covers something. -/
theorem bounds (h : InOrder i j ss) (hs : s ∈ ss) :
    i ≤ s.start ∧ s.start < s.stop ∧ s.stop ≤ j := by
  induction ss generalizing i with
  | nil => exact absurd hs List.not_mem_nil
  | cons t r ih =>
    rcases List.mem_cons.1 hs with rfl | hs
    · exact ⟨h.1, h.2.1, h.2.2.le⟩
    · obtain ⟨hi, hlt, hj⟩ := ih h.2.2 hs
      exact ⟨Nat.le_trans h.1 (Nat.le_trans (Nat.le_of_lt h.2.1) hi), hlt, hj⟩

/-- Spans in order do not overlap. -/
theorem pairwise (h : InOrder i j ss) : ss.Pairwise fun s t => s.stop ≤ t.start := by
  induction ss generalizing i with
  | nil => exact List.Pairwise.nil
  | cons s r ih => exact List.pairwise_cons.2 ⟨fun t ht => (h.2.2.bounds ht).1, ih h.2.2⟩

end InOrder

theorem inOrder_spanOf (kind : Text) (h : start ≤ stop) :
    InOrder start stop (spanOf kind start stop) := by
  unfold spanOf
  split
  · exact h
  · next hne => exact ⟨Nat.le_refl _, Nat.lt_of_le_of_ne h hne, Nat.le_refl _⟩

theorem areNested_cons {r : List Node} : areNested i j (n :: r) = true ↔
    i ≤ n.start ∧ n.isNested = true ∧ areNested n.stop j r = true := by
  simp [areNested, and_assoc]

mutual

theorem start_le_stop : ∀ n : Node, n.isNested = true → n.start ≤ n.stop
  | node _ _ _ cs, h => le_of_areNested cs h

theorem le_of_areNested {i j : Nat} : ∀ cs : List Node, areNested i j cs = true → i ≤ j
  | [], h => by simpa [areNested] using h
  | n :: r, h => by
    obtain ⟨hi, hn, hr⟩ := areNested_cons.1 h
    exact Nat.le_trans hi (Nat.le_trans (start_le_stop n hn) (le_of_areNested r hr))

end

mutual

/-- The places of the tokens stand in the tree, in order. -/
theorem inOrder_spans : ∀ n : Node, n.isNested = true → InOrder n.start n.stop n.spans
  | node k i j cs, h => by
    have hij : i ≤ j := le_of_areNested cs h
    unfold spans
    split
    · exact hij
    split
    · exact inOrder_chunkSpans cs (Nat.le_refl i) h
    split
    · exact inOrder_spanOf _ hij
    · exact inOrder_allSpans cs h

/-- The spans of nested trees are in order. -/
theorem inOrder_allSpans {i j : Nat} : ∀ cs : List Node, areNested i j cs = true →
    InOrder i j (allSpans cs)
  | [], h => le_of_areNested [] h
  | n :: r, h => by
    obtain ⟨hi, hn, hr⟩ := areNested_cons.1 h
    exact ((inOrder_spans n hn).of_le hi).append (inOrder_allSpans r hr)

/-- So are those of a template, with its literal parts. -/
theorem inOrder_chunkSpans {start i stop : Nat} : ∀ cs : List Node, start ≤ i →
    areNested i stop cs = true → InOrder start stop (chunkSpans start stop cs)
  | [], hs, h => by
    have hi : i ≤ stop := le_of_areNested [] h
    exact inOrder_spanOf _ (Nat.le_trans hs hi)
  | n :: r, hs, h => by
    obtain ⟨hi, hn, hr⟩ := areNested_cons.1 h
    unfold chunkSpans
    split
    · have hchunk := inOrder_spanOf chunkKind (Nat.le_trans hs hi)
      exact hchunk.append ((inOrder_spans n hn).append (inOrder_chunkSpans r (Nat.le_refl _) hr))
    · have hle := Nat.le_trans hs (Nat.le_trans hi (start_le_stop n hn))
      exact inOrder_chunkSpans r hle hr

end

/-! ## 4. What is covered -/

theorem nested_of_mem (h : areNested i j cs = true) (hc : c ∈ cs) :
    c.isNested = true ∧ i ≤ c.start ∧ c.stop ≤ j := by
  induction cs generalizing i with
  | nil => exact absurd hc List.not_mem_nil
  | cons n r ih =>
    obtain ⟨hi, hn, hr⟩ := areNested_cons.1 h
    have hle := start_le_stop n hn
    rcases List.mem_cons.1 hc with rfl | hc
    · exact ⟨hn, hi, le_of_areNested r hr⟩
    · obtain ⟨hcn, hs, hj⟩ := ih hr hc
      exact ⟨hcn, by omega, hj⟩

-- Parts of one tree do not overlap.
theorem eq_of_covers (h : areNested i j cs = true) (hc : c ∈ cs) (hd : d ∈ cs) (hcp : c.Covers p)
    (hdp : d.Covers p) : c = d := by
  induction cs generalizing i with
  | nil => exact absurd hc List.not_mem_nil
  | cons n r ih =>
    obtain ⟨-, -, hr⟩ := areNested_cons.1 h
    have hafter (m : Node) (hm : m ∈ r) (hmp : m.Covers p) (hnp : n.Covers p) : False := by
      have := (nested_of_mem hr hm).2.1
      exact absurd hnp.2 (by have := hmp.1; omega)
    rcases List.mem_cons.1 hc with hcn | hcr <;> rcases List.mem_cons.1 hd with hdn | hdr
    · rw [hcn, hdn]
    · exact (hafter d hdr hdp (hcn ▸ hcp)).elim
    · exact (hafter c hcr hcp (hdn ▸ hdp)).elim
    · exact ih hr hcr hdr

theorem mem_allSpans {s : Span} (hc : c ∈ cs) (hs : s ∈ c.spans) : s ∈ allSpans cs := by
  induction cs with
  | nil => exact absurd hc List.not_mem_nil
  | cons n r ih =>
    rw [allSpans, List.mem_append]
    rcases List.mem_cons.1 hc with rfl | hc
    · exact .inl hs
    · exact .inr (ih hc)

theorem mem_chunkSpans {s : Span} (hc : c ∈ cs) (hsub : c.is .templateSubstitution = true)
    (hs : s ∈ c.spans) (start stop : Nat) : s ∈ chunkSpans start stop cs := by
  induction cs generalizing start with
  | nil => exact absurd hc List.not_mem_nil
  | cons n r ih =>
    unfold chunkSpans
    rcases List.mem_cons.1 hc with rfl | hc
    · rw [if_pos hsub]
      exact List.mem_append_right _ (List.mem_append_left _ hs)
    · split
      · exact List.mem_append_right _ (List.mem_append_right _ (ih hc _))
      · exact ih hc start

theorem covers_spanOf (kind : Text) (hs : start ≤ p) (hp : p < stop) :
    ∃ s ∈ spanOf kind start stop, s.Covers p := by
  refine ⟨⟨kind, start, stop⟩, ?_, hs, hp⟩
  rw [spanOf, if_neg (by omega)]
  exact List.mem_singleton.2 rfl

/-- What no substitution of a template covers is in a literal part. -/
theorem exists_chunk (h : areNested i stop cs = true) (hs : start ≤ p) (hp : p < stop)
    (hsub : ∀ c ∈ cs, c.is .templateSubstitution = true → ¬ c.Covers p) :
    ∃ s ∈ chunkSpans start stop cs, s.Covers p := by
  induction cs generalizing start i with
  | nil => exact covers_spanOf chunkKind hs hp
  | cons n r ih =>
    obtain ⟨-, -, hr⟩ := areNested_cons.1 h
    have hrest := fun c hc => hsub c (List.mem_cons_of_mem n hc)
    unfold chunkSpans
    split
    · next hn =>
      have hno : ¬ (n.start ≤ p ∧ p < n.stop) := hsub n List.mem_cons_self hn
      by_cases hlt : p < n.start
      · obtain ⟨s, hm, hc⟩ := covers_spanOf chunkKind hs hlt
        exact ⟨s, List.mem_append_left _ hm, hc⟩
      · obtain ⟨s, hm, hc⟩ := ih hr (show n.stop ≤ p by omega) hrest
        exact ⟨s, List.mem_append_right _ (List.mem_append_right _ hm), hc⟩
    · exact ih hr hs hrest

theorem Has.covers (hn : n.isNested = true) (h : Has n m) (hp : m.Covers p) : n.Covers p := by
  induction h with
  | self n => exact hp
  | @part n c m hc h ih =>
    obtain ⟨k, i, j, cs⟩ := n
    obtain ⟨hcn, hi, hj⟩ := nested_of_mem hn hc
    obtain ⟨h1, h2⟩ := ih hcn hp
    exact ⟨Nat.le_trans hi h1, Nat.lt_of_lt_of_le h2 hj⟩

/-- What a nested tree has in it is nested. -/
theorem Has.nested (hn : n.isNested = true) (h : Has n m) : m.isNested = true := by
  induction h with
  | self n => exact hn
  | @part n c m hc h ih =>
    obtain ⟨k, i, j, cs⟩ := n
    exact ih (nested_of_mem hn hc).1

theorem Shows.has (h : Shows n m) : Has n m := by
  induction h with
  | self => exact .self _
  | part _ hc _ ih => exact .part hc ih

-- A template is a whole only where it has no parts.
theorem children_eq_nil (h : (node (.named .templateString) i j cs).isWhole = true) : cs = [] := by
  simpa [isWhole, Node.is, Node.kind, Node.children] using h

/-- What carries text and is in no comment is covered by a token. -/
theorem exists_span_of_shows (hn : n.isNested = true) (h : Shows n m) (hp : m.Covers p)
    (hm : m.isWhole = true ∨ m.Literal p) : ∃ s ∈ n.spans, s.Covers p := by
  induction h with
  | @self n hcomment =>
    obtain ⟨k, i, j, cs⟩ := n
    unfold spans
    rw [if_neg (by simp [hcomment])]
    split
    · next hk =>
      refine exists_chunk hn hp.1 hp.2 fun c hc hsub hcp => ?_
      rcases hm with hw | hl
      · subst hk
        have hcs : cs = [] := children_eq_nil hw
        rw [hcs] at hc
        exact absurd hc List.not_mem_nil
      · exact hl.2.2 c hc hsub hcp
    · next hk =>
      have hw : (node k i j cs).isWhole = true := by
        refine hm.resolve_right fun hl => hk ?_
        exact of_decide_eq_true hl.1
      rw [if_pos hw]
      exact covers_spanOf _ hp.1 hp.2
  | @part n c m hcomment hc hshow ih =>
    obtain ⟨k, i, j, cs⟩ := n
    obtain ⟨hcn, -, -⟩ := nested_of_mem hn hc
    have hcp : c.Covers p := hshow.has.covers hcn hp
    have hnp : (node k i j cs).Covers p := (Has.part hc hshow.has).covers hn hp
    obtain ⟨s, hs, hsp⟩ := ih hcn hp hm
    unfold spans
    rw [if_neg (by simp [hcomment])]
    split
    · -- a part that is no substitution stands in a literal part
      by_cases hsub : c.is .templateSubstitution = true
      · exact ⟨s, mem_chunkSpans hc hsub hs i j, hsp⟩
      · refine exists_chunk hn hnp.1 hnp.2 fun d hd hdsub hdp => hsub ?_
        rwa [eq_of_covers hn hc hd hcp hdp]
    split
    · exact covers_spanOf _ hnp.1 hnp.2
    · exact ⟨s, mem_allSpans hc hs, hsp⟩

-- A part stands in a comment, or no comment holds it.
theorem Has.shows_or (h : Has n m) : Shows n m ∨ ∃ c, Has n c ∧ c.isComment = true ∧ Has c m := by
  induction h with
  | self n =>
    cases hn : n.isComment with
    | true => exact .inr ⟨n, .self n, hn, .self n⟩
    | false => exact .inl (.self hn)
  | @part n c m hc h ih =>
    cases hn : n.isComment with
    | true => exact .inr ⟨n, .self n, hn, .part hc h⟩
    | false =>
      rcases ih with hs | ⟨d, hd, hcomment, hdm⟩
      · exact .inl (.part hn hc hs)
      · exact .inr ⟨d, .part hc hd, hcomment, hdm⟩

end Node

theorem length_slice {source : Text} {start stop : Nat} (h : stop ≤ source.length) :
    (slice source start stop).length = stop - start := by
  rw [slice, List.length_take, List.length_drop]
  omega

open Node

/-- In a tree whose parts stand in it in order, the tokens are parts of the text that are not empty
and stand in the tree one after the other. A character that no token covers is in a comment, or in
no leaf, no string, regular expression or number, and no literal part of a template. In particular
tokens cover all literal parts of the templates that no comment holds, at any depth. -/
theorem tokens_in_order {source : Text} {root : Node} (h : root.isNested = true)
    (hs : root.stop ≤ source.length) :
    root.tokens source = root.spans.map (Span.token source) ∧
      (∀ s ∈ root.spans, root.start ≤ s.start ∧ s.start < s.stop ∧ s.stop ≤ root.stop ∧
        (s.token source).text.length = s.stop - s.start) ∧
      (root.spans.Pairwise fun s t => s.stop ≤ t.start) ∧
      (∀ p, root.Covers p → (∀ s ∈ root.spans, ¬ s.Covers p) →
        (∃ m, Has root m ∧ m.isComment = true ∧ m.Covers p) ∨
          ∀ m, Has root m → m.Covers p → m.children ≠ [] ∧ m.is .string = false ∧
            m.is .regex = false ∧ m.is .number = false ∧ ¬ m.Literal p) ∧
      ∀ m p, Shows root m → m.Literal p → ∃ s ∈ root.spans, s.Covers p := by
  have horder := inOrder_spans root h
  refine ⟨tokens_eq_map_spans source root, fun s hm => ?_, horder.pairwise, fun p _ hno => ?_,
    fun m p hshow hl => exists_span_of_shows h hshow hl.2.1 (.inr hl)⟩
  · obtain ⟨h1, h2, h3⟩ := horder.bounds hm
    exact ⟨h1, h2, h3, length_slice (Nat.le_trans h3 hs)⟩
  · refine Classical.or_iff_not_imp_left.2 fun hcomment m hm hp => ?_
    have hshow : Shows root m := by
      refine hm.shows_or.resolve_right ?_
      rintro ⟨c, hc, hcc, hcm⟩
      exact hcomment ⟨c, hc, hcc, hcm.covers (hc.nested h) hp⟩
    have hnone : ¬ (m.isWhole = true ∨ m.Literal p) := fun hcarries => by
      obtain ⟨s, hs, hsp⟩ := exists_span_of_shows h hshow hp hcarries
      exact hno s hs hsp
    simp only [isWhole, Bool.or_eq_true, List.isEmpty_iff, not_or, Bool.not_eq_true] at hnone
    obtain ⟨⟨⟨⟨hleaf, hstring⟩, hregex⟩, hnumber⟩, hliteral⟩ := hnone
    exact ⟨hleaf, hstring, hregex, hnumber, hliteral⟩

-- The tree of a template with another one in its substitution, and of a comment behind it.
def nestedTemplates : Node :=
  let inner : Node := .node (.named .templateString) 4 8
    [.leaf (.mark ['\x60']) 4 5, .leaf (.named .stringFragment) 5 7, .leaf (.mark ['\x60']) 7 8]
  let substitution : Node := .node (.named .templateSubstitution) 2 10
    [.leaf (.mark ['$', '{']) 2 4, inner, .leaf (.mark ['}']) 9 10]
  let outer : Node := .node (.named .templateString) 0 11
    [.leaf (.mark ['\x60']) 0 1, .leaf (.named .stringFragment) 1 2, substitution,
      .leaf (.mark ['\x60']) 10 11]
  .node (.named .program) 0 14
    [.node (.named .expressionStatement) 0 11 [outer, .leaf (.named .automaticSemicolon) 11 11],
      .leaf (.named .comment) 11 14]

theorem tokens_in_order_deep :
    let source : Text := "\x60a$\x7b\x60b \x60 \x7d\x60//c"
    nestedTemplates.isNested = true ∧ nestedTemplates.stop ≤ source.length ∧
      (nestedTemplates.spans.map fun s => (s.start, s.stop)) =
        [(0, 2), (2, 4), (4, 8), (9, 10), (10, 11)] ∧
      nestedTemplates.tokens source = nestedTemplates.spans.map (Span.token source) ∧
      ∀ m p, Shows nestedTemplates m → m.Literal p →
        ∃ s ∈ nestedTemplates.spans, s.Covers p := by
  intro source
  have hn : nestedTemplates.isNested = true := by decide
  have hs : nestedTemplates.stop ≤ source.length := by decide
  obtain ⟨ht, -, -, -, hl⟩ := tokens_in_order hn hs
  exact ⟨hn, hs, by decide, ht, hl⟩

end Baselines.Script
