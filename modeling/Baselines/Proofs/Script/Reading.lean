import Baselines.Proofs.Script.Layout
import Baselines.Script.Tokens

/-!
# What rules read

A rule covers a text if the trees it gives are a layout of the stretch that it passes over: the texts
of their tokens, with blanks and comments between. Rules made of rules that cover a text cover it.
-/

namespace Baselines.Script

variable {source : Text}

/-! ## 1. Places -/

/-- Whether a cursor is a place in a text. -/
def On (source : Text) (c : Cursor) : Prop := c.rest = source.drop c.pos

theorem on_start (source : Text) : On source (.start source) := rfl

theorem On.skip {c : Cursor} (h : On source c) (n : Nat) : On source (c.skip n) := by
  rw [On, Cursor.skip, h, List.drop_drop]

theorem On.slice_skip {c : Cursor} (h : On source c) (n : Nat) :
    slice source c.pos (c.skip n).pos = c.rest.take n := by
  rw [slice, Cursor.skip, h, Nat.add_sub_cancel_left]

theorem slice_self (source : Text) (i : Nat) : slice source i i = [] := by simp [slice]

theorem slice_append {i j k : Nat} (hij : i ≤ j) (hjk : j ≤ k) :
    slice source i j ++ slice source j k = slice source i k := by
  have hk : k - i = (j - i) + (k - j) := by omega
  have hj : source.drop j = (source.drop i).drop (j - i) := by
    rw [List.drop_drop, Nat.add_sub_cancel' hij]
  rw [slice, slice, slice, hk, hj, List.take_add]

/-- Two places with blanks and comments between. -/
structure Passes (source : Text) (c d : Cursor) : Prop where
  le : c.pos ≤ d.pos
  on : On source d
  gap : Gap (slice source c.pos d.pos)

theorem Passes.refl {c : Cursor} (h : On source c) : Passes source c c :=
  ⟨Nat.le_refl _, h, by rw [slice_self]; exact .nil⟩

/-- What is passed up to one place and from there to another is passed as a whole. -/
theorem Passes.trans {c d e : Cursor} (hd : Passes source c d) (he : Passes source d e) :
    Passes source c e :=
  ⟨Nat.le_trans hd.le he.le, he.on, by rw [← slice_append hd.le he.le]; exact hd.gap.append he.gap⟩

theorem passes_skip {c : Cursor} (h : On source c) {n : Nat} (hg : Gap (c.rest.take n)) :
    Passes source c (c.skip n) :=
  ⟨Nat.le_add_right _ _, h.skip n, by rw [h.slice_skip]; exact hg⟩

/-- Skipping blanks passes a gap. -/
theorem passes_skipBlanks {c : Cursor} (h : On source c) : Passes source c c.skipBlanks := by
  refine passes_skip h ?_
  rw [takeWhile_eq_take]
  exact gap_of_blanks fun x hx => List.mem_takeWhile_imp hx

/-- A comment that is read is passed, and its node is a comment. -/
theorem comment?_eq_some {seam : Seam} {c d : Cursor} {n : Node} (hc : On source c)
    (h : comment? seam c = some (n, d)) : n.isComment = true ∧ Passes source c d := by
  have hb := passes_skipBlanks hc
  unfold comment? at h
  simp only at h
  split at h
  · next k hk =>
    cases h
    exact ⟨rfl, hb.trans (passes_skip hb.on (commentLength?_eq_some hk).gap)⟩
  · split at h
    · obtain ⟨k, hk, he⟩ := Option.map_eq_some_iff.1 h
      cases he
      exact ⟨rfl, hb.trans (passes_skip hb.on (htmlCommentLength?_eq_some hk).gap)⟩
    · cases h

-- Whether an automatic semicolon ends what stands before a seam.
def Seam.stopsAt (seam : Seam) (c : Cursor) : Bool :=
  match seam with
  | .ending operator => endsHere operator c.rest
  | _ => false

theorem approachFrom_succ (seam : Seam) (n : Nat) (found : List Node) (c : Cursor) :
    approachFrom seam (n + 1) found c =
      if seam.stopsAt c then none
      else match comment? seam c with
        | some (node, d) => approachFrom seam n (node :: found) d
        | none => some ⟨found.reverse, c, c.skipBlanks⟩ := by
  cases seam <;> rfl

/-- Comments that are gathered before a token are comments, and all that is passed is a gap. -/
theorem approachFrom_eq_some {seam : Seam} {fuel : Nat} {found : List Node} {c : Cursor}
    {a : Approach} (hc : On source c) (hf : ∀ n ∈ found, n.isComment = true)
    (h : approachFrom seam fuel found c = some a) :
    (∀ n ∈ a.comments, n.isComment = true) ∧ Passes source c a.token := by
  induction fuel generalizing found c with
  | zero => cases h
  | succ fuel ih =>
    rw [approachFrom_succ] at h
    split at h
    · cases h
    · split at h
      · next node d hd =>
        obtain ⟨hn, hp⟩ := comment?_eq_some hc hd
        obtain ⟨ha, ht⟩ := ih hp.on (by simpa using ⟨hn, hf⟩) h
        exact ⟨ha, hp.trans ht⟩
      · cases h
        exact ⟨by simpa using hf, passes_skipBlanks hc⟩

/-- Nothing but blanks and comments stands before the next token. -/
theorem approach_eq_some {seam : Seam} {c : Cursor} {a : Approach} (hc : On source c)
    (h : approach seam c = some a) :
    (∀ n ∈ a.comments, n.isComment = true) ∧ Passes source c a.token :=
  approachFrom_eq_some hc (by simp) h

/-! ## 2. Texts of tokens -/

/-- The texts of the tokens of trees. -/
def texts (source : Text) (ns : List Node) : List Text :=
  (Node.allTokens source ns).map Token.text

theorem texts_nil : texts source [] = [] := by simp [texts, Node.allTokens]

theorem texts_cons (n : Node) (r : List Node) :
    texts source (n :: r) = texts source [n] ++ texts source r := by
  simp [texts, Node.allTokens]

/-- Nodes side by side have the texts of the one followed by those of the other. -/
theorem texts_append (xs ys : List Node) :
    texts source (xs ++ ys) = texts source xs ++ texts source ys := by
  induction xs with
  | nil => simp [texts_nil]
  | cons x xs ih => rw [List.cons_append, texts_cons, texts_cons x xs, ih, List.append_assoc]

/-- Comments have no texts. -/
theorem texts_of_comments {ns : List Node} (h : ∀ n ∈ ns, n.isComment = true) :
    texts source ns = [] := by
  induction ns with
  | nil => exact texts_nil
  | cons n r ih =>
    obtain ⟨k, i, j, cs⟩ := n
    rw [texts_cons, ih fun m hm => h m (by simp [hm])]
    simp [texts, Node.allTokens, Node.tokens, h _ (List.mem_cons_self ..)]

/-- Whether the tokens of a tree of a shape are those of its parts. -/
def Shape.isInner : Shape → Bool
  | .comment | .htmlComment | .templateString | .string | .regex | .number => false
  | _ => true

/-- Whether a leaf of a kind is a token. -/
def Kind.isToken : Kind → Bool
  | .named .comment | .named .htmlComment | .named .templateString => false
  | _ => true

theorem ne_of_isInner {s s' : Shape} (hs : s.isInner = true) (hs' : s'.isInner = false) :
    s ≠ s' := by
  rintro rfl
  simp [hs] at hs'

theorem ne_of_isToken {k k' : Kind} (hk : k.isToken = true) (hk' : k'.isToken = false) :
    k ≠ k' := by
  rintro rfl
  simp [hk] at hk'

theorem isToken_of_isInner {s : Shape} (h : s.isInner = true) : (Kind.named s).isToken = true := by
  cases s <;> first | rfl | cases h

theorem isComment_of_isToken {k : Kind} (hk : k.isToken = true) (i j : Nat) (cs : List Node) :
    (Node.node k i j cs).isComment = false := by
  simp [Node.isComment, Node.is, Node.kind,
    ne_of_isToken hk (rfl : (Kind.named .comment).isToken = false),
    ne_of_isToken hk (rfl : (Kind.named .htmlComment).isToken = false)]

/-- A leaf of a token has one text, unless it covers nothing. -/
theorem texts_leaf {k : Kind} (hk : k.isToken = true) (i j : Nat) :
    texts source [.leaf k i j] = if i = j then [] else [slice source i j] := by
  have hc := isComment_of_isToken hk i j []
  have ht := ne_of_isToken hk (rfl : (Kind.named .templateString).isToken = false)
  by_cases h : i = j <;>
    simp [texts, Node.allTokens, Node.leaf, Node.tokens, hc, ht, Node.isWhole, Node.children,
      tokenOf, h]

/-- An inner node has the texts of its parts. -/
theorem texts_inner {s : Shape} (hs : s.isInner = true) (i j : Nat) {cs : List Node}
    (hcs : cs ≠ []) : texts source [.node (.named s) i j cs] = texts source cs := by
  have hc := isComment_of_isToken (isToken_of_isInner hs) i j cs
  have hw : ∀ s', s'.isInner = false → s ≠ s' := fun _ => ne_of_isInner hs
  simp [texts, Node.allTokens, Node.tokens, hc, Node.isWhole, Node.is, Node.kind, Node.children,
    hw _ (rfl : Shape.templateString.isInner = false), hw _ (rfl : Shape.string.isInner = false),
    hw _ (rfl : Shape.regex.isInner = false), hw _ (rfl : Shape.number.isInner = false), hcs]

/-! ## 3. Readings -/

/-- Whether trees hold more than comments, if there are any. -/
def Solid (ns : List Node) : Prop := ns = [] ∨ ∃ n ∈ ns, n.isComment = false

theorem Solid.append {xs ys : List Node} (hx : Solid xs) (hy : Solid ys) : Solid (xs ++ ys) := by
  rcases hx with rfl | ⟨n, hn, hc⟩
  · exact hy
  · exact .inr ⟨n, List.mem_append_left _ hn, hc⟩

/-- Trees that are a layout of the stretch from one place to another. -/
structure Reads (source : Text) (c : Cursor) (xs : List Node) (d : Cursor) : Prop where
  le : c.pos ≤ d.pos
  on : On source d
  layout : Layout (texts source xs) (slice source c.pos d.pos)
  solid : Solid xs

namespace Reads

variable {c d e : Cursor} {xs ys : List Node}

theorem nil (hc : On source c) : Reads source c [] c :=
  ⟨Nat.le_refl _, hc, by rw [texts_nil, slice_self]; exact .gap .nil, .inl rfl⟩

theorem append (hx : Reads source c xs d) (hy : Reads source d ys e) :
    Reads source c (xs ++ ys) e where
  le := Nat.le_trans hx.le hy.le
  on := hy.on
  layout := by
    rw [texts_append, ← slice_append hx.le hy.le]
    exact hx.layout.append hy.layout
  solid := hx.solid.append hy.solid

/-- Other trees with the same texts. -/
theorem congr (h : Reads source c xs d) (ht : texts source ys = texts source xs)
    (hs : Solid ys) : Reads source c ys d :=
  ⟨h.le, h.on, ht ▸ h.layout, hs⟩

/-- Comments in front of trees, at the end of a gap. -/
theorem after_comments {ms : List Node} (hm : ∀ n ∈ ms, n.isComment = true)
    (hp : Passes source c d) (h : Reads source d xs e) (hx : xs ≠ []) :
    Reads source c (ms ++ xs) e where
  le := Nat.le_trans hp.le h.le
  on := h.on
  layout := by
    rw [texts_append, texts_of_comments hm, List.nil_append, ← slice_append hp.le h.le]
    exact h.layout.gap_append hp.gap
  solid := by
    rcases h.solid with h | ⟨n, hn, hc⟩
    · exact absurd h hx
    · exact .inr ⟨n, List.mem_append_right _ hn, hc⟩

theorem leaf (hc : On source c) {k : Kind} (hk : k.isToken = true) (n : Nat) :
    Reads source c [.leaf k c.pos (c.pos + n)] (c.skip n) where
  le := Nat.le_add_right _ _
  on := hc.skip n
  layout := by
    rw [texts_leaf hk]
    split
    · next h => rw [Cursor.skip, ← h, slice_self]; exact .gap .nil
    · exact .single _
  solid := .inr ⟨_, List.mem_singleton_self _, isComment_of_isToken hk ..⟩

end Reads

/-! ## 4. Trees over readings -/

/-- A tree over trees up to a place; the comments before them stay outside. -/
def enclosed (shape : Shape) (xs : List Node) (pos : Nat) : List Node :=
  xs.takeWhile Node.isComment ++
    [.node (.named shape) (beginning pos xs) pos (xs.drop (xs.takeWhile Node.isComment).length)]

theorem tree_eq_some {shape : Shape} {r : Rule} {c d : Cursor} {ys : List Node} :
    tree shape r c = some (ys, d) ↔ ∃ xs, r c = some (xs, d) ∧ ys = enclosed shape xs d.pos := by
  unfold tree enclosed
  cases h : r c with
  | none => simp
  | some p =>
    simp only [Option.some.injEq, Prod.mk.injEq]
    constructor
    · rintro ⟨rfl, rfl⟩
      exact ⟨p.1, rfl, rfl⟩
    · rintro ⟨xs, rfl, rfl⟩
      exact ⟨rfl, rfl⟩

theorem drop_takeWhile_length (p : Node → Bool) (xs : List Node) :
    xs.drop (xs.takeWhile p).length = xs.dropWhile p := by
  calc xs.drop (xs.takeWhile p).length
      = (xs.takeWhile p ++ xs.dropWhile p).drop (xs.takeWhile p).length := by
        rw [List.takeWhile_append_dropWhile]
    _ = xs.dropWhile p := List.drop_left

-- The comments come first, and the tree begins where the first of the other trees does.
theorem enclosed_eq (shape : Shape) {ms : List Node} (hm : ∀ n ∈ ms, n.isComment = true) {n : Node}
    (hn : n.isComment = false) (r : List Node) (pos : Nat) :
    enclosed shape (ms ++ n :: r) pos = ms ++ [.node (.named shape) n.start pos (n :: r)] := by
  have hb : beginning pos (ms ++ n :: r) = n.start := by
    induction ms generalizing pos with
    | nil => simp [beginning, hn]
    | cons m ms ih =>
      simp only [List.cons_append, beginning, hm m (by simp), if_true]
      exact ih (fun x hx => hm x (by simp [hx])) _
  have ht : (ms ++ n :: r).takeWhile Node.isComment = ms := by
    rw [List.takeWhile_append_of_pos hm]
    simp [hn]
  rw [enclosed, ht, hb, List.drop_left]

/-- Enclosing nodes in one keeps their texts, and leaves comments before it outside. -/
theorem texts_enclosed {shape : Shape} (hs : shape.isInner = true) {xs : List Node}
    (hx : Solid xs) (pos : Nat) : texts source (enclosed shape xs pos) = texts source xs := by
  rcases hx with rfl | ⟨n, hn, hc⟩
  · exact texts_leaf (isToken_of_isInner hs) pos pos |>.trans (by simp [texts_nil])
  · have hd : xs.dropWhile Node.isComment ≠ [] := by
      rw [Ne, List.dropWhile_eq_nil_iff]
      exact fun h => by simp [h n hn] at hc
    rw [enclosed, drop_takeWhile_length, texts_append, texts_inner hs _ _ hd, ← texts_append,
      List.takeWhile_append_dropWhile]

theorem Reads.enclosed {c d : Cursor} {xs : List Node} {shape : Shape}
    (hs : shape.isInner = true) (h : Reads source c xs d) :
    Reads source c (enclosed shape xs d.pos) d :=
  h.congr (texts_enclosed hs h.solid d.pos)
    (.inr ⟨_, List.mem_append_right _ (List.mem_singleton_self _),
      isComment_of_isToken (isToken_of_isInner hs) ..⟩)

-- The last of some trees with more parts after it, as one tree.
theorem texts_graft {shape : Shape} (hs : shape.isInner = true) (xs more : List Node) (pos : Nat) :
    texts source (graft shape xs more pos) = texts source (xs ++ more) := by
  unfold graft
  split
  · rfl
  · next x hx =>
    obtain ⟨front, rfl⟩ := List.getLast?_eq_some_iff.1 hx
    rw [List.dropLast_concat, texts_append, texts_inner hs _ _ (by simp), ← texts_append,
      List.append_assoc, List.singleton_append]

theorem Reads.graft {c d e : Cursor} {xs more : List Node} {shape : Shape}
    (hs : shape.isInner = true) (hx : Reads source c xs d) (hm : Reads source d more e)
    (pos : Nat) : Reads source c (graft shape xs more pos) e := by
  refine (hx.append hm).congr (texts_graft hs xs more pos) ?_
  unfold Script.graft
  split
  · exact hx.solid.append hm.solid
  · exact .inr ⟨_, List.mem_append_right _ (List.mem_singleton_self _),
      isComment_of_isToken (isToken_of_isInner hs) ..⟩

/-! ## 5. Rules -/

/-- Two rules in turn read what the one reads and then the other. -/
theorem both_eq_some {r s : Rule} {c d : Cursor} {xs : List Node} :
    Rule.both r s c = some (xs, d) ↔
      ∃ ys e zs, r c = some (ys, e) ∧ s e = some (zs, d) ∧ xs = ys ++ zs := by
  unfold Rule.both
  constructor
  · intro h
    split at h
    · cases h
    · next ys e hy =>
      split at h
      · cases h
      · next zs d hz =>
        cases h
        exact ⟨ys, e, zs, hy, hz, rfl⟩
  · rintro ⟨ys, e, zs, hy, hz, rfl⟩
    simp [hy, hz]

theorem or_eq_some {r s : Rule} {c : Cursor} {p : List Node × Cursor} (h : Rule.or r s c = some p) :
    r c = some p ∨ s c = some p := by
  unfold Rule.or at h
  split at h
  · exact .inr h
  · next hp => exact .inl (hp.trans h)

/-- A leaf is read behind the gap before it, whose comments it keeps. -/
theorem leafAt_eq_some {seam : Seam} {kind : Text → Option (Kind × Nat)} {c d : Cursor}
    {xs : List Node} (h : leafAt seam kind c = some (xs, d)) :
    ∃ a k n, approach seam c = some a ∧ kind a.token.rest = some (k, n) ∧
      xs = a.comments ++ [.leaf k a.token.pos (a.token.pos + n)] ∧ d = a.token.skip n := by
  unfold leafAt at h
  split at h
  · cases h
  · next a ha =>
    split at h <;> cases h
    exact ⟨a, _, _, ha, ‹_›, rfl, rfl⟩

/-- What holds of nothing, and stays with each reading of a rule, holds of all that is read. -/
theorem many_invariant {r : Rule} {P : List Node → Cursor → Prop}
    (hP : ∀ {xs ys c d}, P xs c → r c = some (ys, d) → P (xs ++ ys) d) {c d : Cursor}
    {xs : List Node} (h0 : P [] c) (h : Rule.many r c = some (xs, d)) : P xs d := by
  have upTo : ∀ {n found c}, P found.reverse.flatten c →
      P (Rule.manyUpTo r n found c).1.reverse.flatten (Rule.manyUpTo r n found c).2 := by
    intro n
    induction n with
    | zero => exact id
    | succ n ih =>
      intro found c hf
      unfold Rule.manyUpTo
      split
      · next xs e hx =>
        split
        · exact hf
        · exact ih (by simpa using hP hf hx)
      · exact hf
  have h0 : P ([] : List (List Node)).reverse.flatten c := h0
  have hm := upTo (n := c.rest.length + 1) h0
  obtain ⟨rfl, rfl⟩ := Prod.mk.inj (Option.some.inj h)
  exact hm

-- What holds of every rule of a list, as one fact after the other.
abbrev Each (p : Rule → Prop) : List Rule → Prop
  | [] => True
  | r :: rs => p r ∧ Each p rs

/-- A rule whose trees are a layout of what it passes over. -/
def Covers (source : Text) (r : Rule) : Prop :=
  ∀ ⦃c d : Cursor⦄ ⦃xs : List Node⦄, On source c → r c = some (xs, d) → Reads source c xs d

namespace Covers

variable {r s : Rule} {rs : List Rule}

theorem nothing : Covers source Rule.nothing := by
  intro c d xs hc h
  cases h
  exact .nil hc

theorem fail : Covers source Rule.fail := nofun

/-- A rule that reads by two others in turn covers what they cover. -/
theorem both (hr : Covers source r) (hs : Covers source s) : Covers source (Rule.both r s) := by
  intro c d xs hc h
  obtain ⟨ys, e, zs, hy, hz, rfl⟩ := both_eq_some.1 h
  exact (hr hc hy).append (hs (hr hc hy).on hz)

theorem or (hr : Covers source r) (hs : Covers source s) : Covers source (Rule.or r s) :=
  fun _ _ _ hc h => (or_eq_some h).elim (hr hc) (hs hc)

theorem all (h : Each (Covers source) rs) : Covers source (Rule.all rs) := by
  induction rs with
  | nil => exact nothing
  | cons r rs ih => exact both h.1 (ih h.2)

theorem any (h : Each (Covers source) rs) : Covers source (Rule.any rs) := by
  induction rs with
  | nil => exact fail
  | cons r rs ih => exact or h.1 (ih h.2)

theorem maybe (hr : Covers source r) : Covers source (Rule.maybe r) := or hr nothing

/-- Reading a rule as often as it goes covers what each turn covers. -/
theorem many (hr : Covers source r) : Covers source (Rule.many r) := by
  intro c d xs hc h
  exact many_invariant (fun hx hy => hx.append (hr hx.on hy)) (Reads.nil hc) h

theorem when (hr : Covers source r) (p : List Node → Bool) : Covers source (Rule.when p r) := by
  intro c d xs hc h
  unfold Rule.when at h
  split at h
  · next ys e hy =>
    split at h
    · cases h
      exact hr hc hy
    · cases h
  · cases h

theorem barring (hr : Covers source r) (stop : Rule) : Covers source (Rule.barring stop r) := by
  intro c d xs hc h
  unfold Rule.barring at h
  split at h
  · exact hr hc h
  · cases h

theorem ahead (r : Rule) : Covers source (Rule.ahead r) := by
  intro c d xs hc h
  unfold Rule.ahead at h
  split at h
  · cases h
  · cases h
    exact .nil hc

/-- A tree of an inner shape covers what its rule does. -/
theorem tree {shape : Shape} (hs : shape.isInner = true) (hr : Covers source r) :
    Covers source (tree shape r) := by
  intro c d ys hc h
  obtain ⟨xs, hx, rfl⟩ := tree_eq_some.1 h
  exact (hr hc hx).enclosed hs

/-- A rule with a change of its trees that keeps the texts. -/
theorem change {f : List Node → Option (List Node)} (hr : Covers source r)
    (hf : ∀ {xs ys}, f xs = some ys → texts source ys = texts source xs ∧ (Solid xs → Solid ys)) :
    Covers source (Rule.change f r) := by
  intro c d ys hc h
  unfold Rule.change at h
  split at h
  · next xs e hx =>
    obtain ⟨zs, hz, he⟩ := Option.map_eq_some_iff.1 h
    cases he
    obtain ⟨ht, hs⟩ := hf hz
    have hx := hr hc hx
    exact hx.congr ht (hs hx.solid)
  · cases h

/-! ## 6. Tokens -/

/-- A leaf covers the token and the gap before it. -/
theorem leafAt {seam : Seam} {kind : Text → Option (Kind × Nat)}
    (hk : ∀ {t k n}, kind t = some (k, n) → k.isToken = true) :
    Covers source (leafAt seam kind) := by
  intro c d xs hc h
  obtain ⟨a, k, n, ha, hn, rfl, rfl⟩ := leafAt_eq_some h
  obtain ⟨hm, hp⟩ := approach_eq_some hc ha
  exact (Reads.leaf hp.on (hk hn) n).after_comments hm hp (by simp)

theorem lexeme {shape : Shape} (hs : (Kind.named shape).isToken = true)
    (length? : Text → Option Nat) : Covers source (lexeme shape length?) := by
  refine leafAt fun h => ?_
  obtain ⟨n, -, he⟩ := Option.map_eq_some_iff.1 h
  cases he
  exact hs

theorem markAfter (seam : Seam) (m : Text) : Covers source (markAfter seam m) := by
  refine leafAt fun h => ?_
  split at h <;> cases h
  rfl

theorem mark (m : Text) : Covers source (mark m) := markAfter .fresh m

theorem wordAfter (seam : Seam) (w : Text) : Covers source (wordAfter seam w) := by
  refine leafAt fun h => ?_
  split at h <;> cases h
  rfl

theorem word (w : Text) : Covers source (word w) := wordAfter .fresh w

theorem oneWord (ws : List Text) : Covers source (oneWord ws) := by
  induction ws with
  | nil => exact fail
  | cons w ws ih => exact or (word w) ih

theorem wordLike {shape : Shape} (hs : (Kind.named shape).isToken = true) (p : Text → Bool) :
    Covers source (wordLike shape p) := by
  refine leafAt fun {t k n} h => ?_
  split at h
  · split at h <;> cases h
    exact hs
  · cases h

theorem nameAs {shape : Shape} (hs : (Kind.named shape).isToken = true) :
    Covers source (nameAs shape) := wordLike hs _

theorem privateName : Covers source privateName := lexeme rfl _

theorem semicolon (operator : Bool) : Covers source (semicolon operator) := by
  have go : ∀ {fuel : Nat} {found : List Node} {c d e : Cursor} {xs : List Node},
      (∀ n ∈ found, n.isComment = true) → Passes source c d →
      semicolon.go operator fuel found d = some (xs, e) → Reads source c xs e := by
    intro fuel
    induction fuel with
    | zero => exact fun _ _ h => nomatch h
    | succ fuel ih =>
      intro found c d e xs hf hp h
      have hf' : ∀ n ∈ found.reverse, n.isComment = true := by simpa using hf
      unfold semicolon.go at h
      split at h
      · cases h
        exact (Reads.leaf hp.on rfl 0).after_comments hf' hp (by simp)
      · split at h
        · next node d' hd =>
          obtain ⟨hn, hp'⟩ := comment?_eq_some hp.on hd
          exact ih (by simpa using ⟨hn, hf⟩) (hp.trans hp') h
        · split at h
          · next ys e hy =>
            cases h
            have hb := passes_skipBlanks hp.on
            refine (mark _ hb.on hy).after_comments hf' (hp.trans hb) ?_
            unfold Script.mark Script.markAfter at hy
            obtain ⟨a, k, n, -, -, rfl, -⟩ := leafAt_eq_some hy
            simp
          · cases h
  intro c d xs hc h
  exact go (by simp) (.refl hc) h

theorem separated {separator : Rule} (hs : Covers source separator) (hr : Covers source r) :
    Covers source (separated separator r) := hr.both (hs.both hr).many

theorem commaList (hr : Covers source r) : Covers source (commaList r) :=
  hr.maybe.both ((mark _).both hr.maybe).many

end Covers

end Baselines.Script
