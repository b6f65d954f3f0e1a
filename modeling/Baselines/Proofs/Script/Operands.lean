import Baselines.Proofs.Script.Templates

/-!
# What the rules of operands read

The rules of elements, arrow functions and operands, and of the operators between them. Some of
these rules go on from trees that were read before, and give a tree over those and what they read.
-/

namespace Baselines.Script

variable {source : Text} {rules : Rules}

/-! ## 1. Elements -/

namespace Covers

theorem jsxName {shape : Shape} (hs : (Kind.named shape).isToken = true) :
    Covers source (jsxName shape) := lexeme hs _

theorem jsxNamespaced : Covers source jsxNamespaced :=
  tree rfl (all ⟨jsxName rfl, mark _, jsxName rfl, trivial⟩)

theorem jsxElementName : Covers source jsxElementName := or jsxNamespaced (dotted (jsxName rfl))

section

variable (hr : ∀ g, Covers source (rules g))
include hr

theorem jsxExpression : Covers source (jsxExpression rules) :=
  tree rfl (all ⟨mark _, ((spread hr).or (expressions hr _)).maybe, closing _, trivial⟩)

theorem jsxAttribute : Covers source (jsxAttribute rules) := by
  refine (jsxExpression hr).or (tree rfl (both (or jsxNamespaced (jsxName rfl)) (maybe ((mark _).both ?_))))
  exact any ⟨lexeme rfl _, jsxExpression hr, hr _, trivial⟩

theorem element : Covers source (element rules) := by
  unfold Script.element
  extract_lets named child
  have hnamed : Covers source named := both jsxElementName (jsxAttribute hr).many
  have hchild : Covers source child :=
    any ⟨lexemeHere rfl _, lexeme rfl _, hr _, jsxExpression hr, trivial⟩
  have hopening : Covers source (Script.tree .jsxOpening
      (Rule.all [Script.mark "<", Rule.maybe named, Script.mark ">"])) :=
    tree rfl (all ⟨mark _, hnamed.maybe, mark _, trivial⟩)
  have hclosing : Covers source (Script.tree .jsxClosing
      (Rule.all [Script.mark "</", Rule.maybe Script.jsxElementName, Script.mark ">"])) :=
    tree rfl (all ⟨mark _, maybe jsxElementName, mark _, trivial⟩)
  refine or (tree rfl ?_) (tree rfl ?_)
  · exact all ⟨mark _, hnamed, mark _, trivial⟩
  · exact all ⟨hopening, hchild.many, hclosing, trivial⟩

/-! ## 2. Arrow functions -/

theorem arrowTail (w : Within) : Covers source (arrowTail rules w) :=
  (markAfter _ _).both (((ahead _).both (blockOrElse (hr _) (hr _))).or ((hr _).barring _))

theorem arrow (w : Within) {head : Rule} (hh : Covers source head) :
    Covers source (arrow rules w head) := tree rfl (hh.both (arrowTail hr w))

end

end Covers

section

variable (hr : ∀ g, Covers source (rules g))
include hr

-- An arrow function whose parameters have been read before.
theorem reads_arrow {w : Within} {c d e : Cursor} {head xs : List Node}
    (hh : Reads source c head d)
    (h : arrow rules w (fun c => some (head, c)) d = some (xs, e)) : Reads source c xs e := by
  obtain ⟨ys, hy, rfl⟩ := tree_eq_some.1 h
  obtain ⟨zs, d', us, hz, hu, rfl⟩ := both_eq_some.1 hy
  cases hz
  exact (hh.append (Covers.arrowTail hr w hh.on hu)).enclosed rfl

end

theorem getLast?_enclosed {shape : Shape} {xs : List Node} {pos : Nat} :
    (enclosed shape xs pos).getLast? = some (.node (.named shape) (beginning pos xs) pos
      (xs.drop (xs.takeWhile Node.isComment).length)) := by
  simp [enclosed]

theorem dropLast_enclosed {shape : Shape} {xs : List Node} {pos : Nat} :
    (enclosed shape xs pos).dropLast = xs.takeWhile Node.isComment := by
  simp [enclosed]

/-- The last of some trees in place of which another stands. -/
theorem Reads.replace_last {c d : Cursor} {front : List Node} {n p : Node}
    (h : Reads source c (front ++ [n]) d) (ht : texts source [p] = texts source [n])
    (hp : p.isComment = false) : Reads source c (front ++ [p]) d :=
  h.congr (by rw [texts_append, texts_append, ht])
    (.inr ⟨p, List.mem_append_right _ (List.mem_singleton_self _), hp⟩)

/-! ## 3. Parentheses -/

-- A list of three trees or more, taken apart as the sequences in parentheses are.
theorem bracketed_eq {parts : List Node} (h : (parts.drop 1).dropLast ≠ []) :
    parts.take 1 ++ (parts.drop 1).dropLast ++ parts.drop (parts.length - 1) = parts := by
  obtain _ | ⟨a, r⟩ := parts
  · exact absurd rfl h
  obtain rfl | ⟨mid, z, rfl⟩ := r.eq_nil_or_concat
  · exact absurd rfl h
  simp

theorem grouped_node (i j : Nat) (parts : List Node) :
    texts source [parenthesized.grouped (.node (.named .parenthesized) i j parts)] =
        texts source [.node (.named .parenthesized) i j parts] ∧
      (parenthesized.grouped (.node (.named .parenthesized) i j parts)).isComment = false := by
  have hc : ∀ cs, (Node.node (.named .parenthesized) i j cs).isComment = false :=
    isComment_of_isToken rfl i j
  unfold parenthesized.grouped
  extract_lets ps items
  split
  case isFalse => exact ⟨rfl, hc _⟩
  rename_i lead rest hi
  split
  case h_2 => exact ⟨rfl, hc _⟩
  next a z ha hz =>
  refine ⟨?_, hc _⟩
  have hrest : rest ≠ [] := by rintro h; simp [h] at ha
  have hitems : lead ++ rest = items := by
    simp only [lead, rest]
    rw [drop_takeWhile_length, List.takeWhile_append_dropWhile]
  have hparts : ps.take 1 ++ items ++ ps.drop (ps.length - 1) = parts :=
    bracketed_eq (by rintro h; simp [items, h] at hi)
  have hne : parts ≠ [] := by
    rintro rfl
    simp [items, ps, Node.children] at hi
  calc texts source [.node (.named .parenthesized) i j
          (ps.take 1 ++ lead ++ [.node (.named .sequence) a.start z.stop rest] ++
            ps.drop (ps.length - 1))]
      = texts source (ps.take 1 ++ lead ++ [.node (.named .sequence) a.start z.stop rest] ++
            ps.drop (ps.length - 1)) := texts_inner rfl i j (by simp)
    _ = texts source (ps.take 1 ++ (lead ++ rest) ++ ps.drop (ps.length - 1)) := by
      simp only [texts_append, texts_inner (s := .sequence) rfl _ _ hrest,
        List.append_assoc]
    _ = texts source [.node (.named .parenthesized) i j parts] := by
      rw [hitems, hparts, texts_inner rfl i j hne]

/-- The trees that are read in parentheses stand for parameters or expressions: the texts stay. -/
theorem Covers.parenthesized (hr : ∀ g, Covers source (rules g)) (w : Within) :
    Covers source (parenthesized rules w) := by
  intro c d xs hc h
  unfold Script.parenthesized at h
  extract_lets listed at h
  have hlisted : Covers source listed := tree rfl (all ⟨mark _, items hr, closing _, trivial⟩)
  split at h
  · cases h
  next ys e hy =>
  have hread := hlisted hc hy
  obtain ⟨zs, hz, rfl⟩ := tree_eq_some.1 hy
  rw [getLast?_enclosed, dropLast_enclosed] at h
  unfold enclosed at hread
  split at h
  · cases h
  next n hn =>
  cases hn
  split at h
  · split at h
    · split at h
      · cases h
      next cs hcs =>
      -- parameters and an arrow
      obtain ⟨ht, -, hp⟩ := renamed (s := .parenthesized) .formalParameters
        (beginning e.pos zs) e.pos rfl rfl (patterns?_eq_some hcs)
      exact reads_arrow hr (hread.replace_last ht hp) h
    · cases h
  · split at h <;> cases h
    obtain ⟨ht, hp⟩ := grouped_node _ _ _
    exact hread.replace_last ht hp

/-! ## 4. What begins with `async` -/

theorem isComment_of_is {s : Shape} {n : Node} (hs : (Kind.named s).isToken = true)
    (h : n.is s = true) : n.isComment = false := by
  obtain ⟨k, i, j, cs⟩ := n
  rw [Node.is, decide_eq_true_eq] at h
  obtain rfl : k = .named s := h
  exact isComment_of_isToken hs i j cs

-- A word instead of a name covers the same characters.
theorem texts_map_word (m : Text) {ns : List Node}
    (h : ∀ n ∈ ns, n.is .identifier = true → n.children = []) :
    texts source (ns.map fun n => if n.is .identifier then .leaf (.mark m) n.start n.stop else n) =
      texts source ns := by
  induction ns with
  | nil => rfl
  | cons n r ih =>
    rw [List.map_cons, texts_cons, texts_cons n, ih fun x hx => h x (by simp [hx])]
    split
    · next hn =>
      obtain ⟨k, i, j, cs⟩ := n
      obtain rfl : cs = [] := h _ (by simp) hn
      rw [Node.is, decide_eq_true_eq] at hn
      obtain rfl : k = .named .identifier := hn
      rw [texts_leaf rfl]
      exact congrArg (· ++ _) (texts_leaf rfl i j).symm
    · rfl

-- A rule for a word gives comments and a leaf.
theorem wordLike_children {shape : Shape} {p : Text → Bool} {c d : Cursor} {xs : List Node}
    (hc : On source c) (h : wordLike shape p c = some (xs, d)) :
    ∀ n ∈ xs, n.isComment = false → n.children = [] := by
  unfold wordLike at h
  obtain ⟨a, k, n, ha, -, rfl, -⟩ := leafAt_eq_some h
  intro m hm hn
  rcases List.mem_append.1 hm with hm | hm
  · simp [(approach_eq_some hc ha).1 m hm] at hn
  · rw [List.mem_singleton.1 hm]
    rfl

theorem Covers.asyncOperand (hr : ∀ g, Covers source (rules g)) (w : Within) :
    Covers source (asyncOperand rules w) := by
  intro c d xs hc h
  unfold Script.asyncOperand at h
  extract_lets name lead at h
  have hname : Covers source name := wordLike rfl _
  have hlead : Covers source lead := (word _).both (withoutEnd nothing _)
  split at h
  · refine any ?_ hc h
    exact ⟨functionExpression hr, arrow hr w (hlead.both plainName), arrow hr w hname, hname,
      trivial⟩
  split at h
  · cases h
  next ys e hy =>
  have hread := hname.both (argumentsAfter hr w.seam) hc hy
  split at h
  · next n _ hn =>
    split at h
    · split at h
      · cases h
      next cs hcs =>
      -- the name and the arguments turn out to be a word and parameters
      obtain ⟨us, e', vs, hu, hv, rfl⟩ := both_eq_some.1 hy
      obtain ⟨zs, hz, rfl⟩ := tree_eq_some.1 hv
      rw [List.getLast?_append, getLast?_enclosed] at hn
      cases hn
      rw [List.dropLast_append_of_ne_nil (by simp [enclosed]), dropLast_enclosed] at h
      have hcs : Alike source _ cs := patterns?_eq_some hcs
      obtain ⟨ht, -, hp⟩ := renamed (s := .arguments) .formalParameters
        (beginning e.pos zs) e.pos rfl rfl hcs
      have hnames : ∀ m ∈ us ++ zs.takeWhile Node.isComment, m.is .identifier = true →
          m.children = [] := by
        intro m hm hi
        have hi := isComment_of_is rfl hi
        rcases List.mem_append.1 hm with hm | hm
        · exact wordLike_children hc hu m hm hi
        · simp [List.mem_takeWhile_imp hm] at hi
      refine reads_arrow hr (hread.congr ?_
        (.inr ⟨_, List.mem_append_right _ (List.mem_singleton_self _), hp⟩)) h
      calc _ = texts source (us ++ zs.takeWhile Node.isComment) ++ texts source
              [.node (.named .formalParameters) (beginning e.pos zs) e.pos cs] := by
            rw [texts_append, texts_map_word _ hnames]
        _ = texts source (us ++ enclosed .arguments zs e.pos) := by
            rw [ht, ← texts_append, List.append_assoc]
            rfl
    · cases h
  · cases h
  · cases h
    exact hread.enclosed rfl

theorem assignee?_eq_some {n p : Node} (h : assignee? n = some p) :
    texts source [p] = texts source [n] ∧ p.isComment = false := by
  unfold assignee? at h
  split at h
  · next hn =>
    cases h
    exact ⟨rfl, isComment_of_is rfl hn⟩
  · obtain ⟨ht, -, hp⟩ := pattern?_eq_some h
    exact ⟨ht, hp⟩

/-! ## 5. Operands -/

section

variable (hr : ∀ g, Covers source (rules g))
include hr

theorem Covers.atom (w : Within) : Covers source (atom rules w) := by
  unfold Script.atom
  extract_lets imported
  have himported : Covers source imported :=
    any ⟨tree rfl (all ⟨word _, mark _, word _, trivial⟩), (word _).both (ahead _), trivial⟩
  exact any ⟨parenthesized hr w, hr _, hr _, templateAfter hr _, lexeme rfl _, lexeme rfl _, lexeme rfl _,
    hr _, oneWord _, himported, (ahead _).both (classExpression hr),
    (ahead _).both (functionExpression hr), (ahead _).both (asyncOperand hr w),
    arrow hr w plainName, barring plainName _, trivial⟩

theorem suffix?_eq_some {w : Within} {calls : Bool} {xs : List Node} {c : Cursor}
    {shape : Shape} {r : Rule} (h : suffix? rules w calls xs c = some (shape, r)) :
    shape.isInner = true ∧ Covers source r := by
  unfold suffix? at h
  simp only [Option.bind_eq_bind, Option.bind_eq_some_iff] at h
  obtain ⟨a, -, n, -, m, -, h⟩ := h
  have hproperty : Covers source (Rule.or propertyWord privateName) :=
    .or .propertyWord .privateName
  have hchain : Covers source (leafAt w.seam fun _ => some (.named .optionalChain, 2)) :=
    .leafAt fun h => by cases h; decide
  have hindex : ∀ {r : Rule}, Covers source r →
      Covers source (Rule.all [r, expressions rules .brackets, closing "]"]) := fun h =>
    .all ⟨h, .expressions hr _, .closing _, trivial⟩
  split at h
  · cases h
    exact ⟨by decide, (Covers.markAfter _ _).both hproperty⟩
  split at h
  · cases h
    exact ⟨by decide, hindex (.markAfter _ _)⟩
  split at h
  · split at h
    · cases h
    split at h
    · cases h
      exact ⟨by decide, hindex (hchain.both (.mark _))⟩
    split at h <;> cases h
    · exact ⟨by decide, hchain.both (.argumentsAfter hr _)⟩
    · exact ⟨by decide, hchain.both hproperty⟩
  split at h
  · cases h
    exact ⟨by decide, .argumentsAfter hr _⟩
  split at h
  · cases h
    exact ⟨by decide, .templateAfter hr _⟩
  split at h <;> cases h
  exact ⟨by decide, .markAfter _ _⟩

-- What follows an operand goes with it.
theorem reads_suffixes {w : Within} {calls : Bool} {n : Nat} {xs ys : List Node}
    {c d e : Cursor} (hx : Reads source c xs d)
    (h : suffixes rules w calls n xs d = some (ys, e)) : Reads source c ys e := by
  induction n generalizing xs d with
  | zero =>
    cases h
    exact hx
  | succ n ih =>
    unfold suffixes at h
    split at h
    · cases h
      exact hx
    next shape r hs =>
    obtain ⟨hshape, hcovers⟩ := suffix?_eq_some hr hs
    split at h
    · cases h
    next more e' hm => exact ih (hx.graft hshape (hcovers hx.on hm) e'.pos) h

namespace Covers

theorem withSuffixes {r : Rule} (hc : Covers source r) (w : Within) (calls : Bool) :
    Covers source (withSuffixes rules w calls r) := by
  intro c d xs hon h
  unfold Script.withSuffixes at h
  split at h
  · cases h
  next ys e hy => exact reads_suffixes hr (hc hon hy) h

theorem newOperand (w : Within) : Covers source (newOperand rules w) := by
  refine or (tree rfl ?_) (tree rfl ?_)
  · exact all ⟨word _, mark _, word _, trivial⟩
  · exact all ⟨word _, hr _, (argumentsAfter hr _).maybe, trivial⟩

theorem constructed (w : Within) : Covers source (constructed rules w) :=
  ((ahead _).both (newOperand hr w)).or (withSuffixes hr (atom hr w) w false)

end Covers

/-! ## 6. Assignments -/

theorem Covers.assigned {r : Rule} (hc : Covers source r) (w : Within) :
    Covers source (assigned rules w r) := by
  intro c d xs hon h
  unfold Script.assigned at h
  split at h
  · cases h
  next ys e hy =>
  have hread := hc hon hy
  split at h
  case h_2 => cases h; exact hread
  next a n ha hn =>
  split at h
  case h_2 => cases h; exact hread
  next m hm =>
  obtain ⟨front, rfl⟩ := List.getLast?_eq_some_iff.1 hn
  split at h
  · split at h
    · next p more e' hp hmore =>
      cases h
      rw [List.dropLast_concat]
      obtain ⟨ht, hp⟩ := assignee?_eq_some hp
      have hread := hread.replace_last ht hp
      exact hread.graft rfl ((markAfter _ _).both (hr _) hread.on hmore) _
    · cases h
  split at h
  · split at h
    · next more e' hu hmore =>
      cases h
      exact hread.graft rfl ((markAfter _ _).both (hr _) hread.on hmore) _
    · cases h
  · cases h
    exact hread

theorem Covers.operand (w : Within) : Covers source (operand rules w) := by
  unfold Script.operand
  extract_lets more
  have hmore : Covers source more := hr _
  have hsigns : Covers source (Rule.any [Script.mark "!", Script.mark "~", Script.sign "+",
      Script.sign "-", Script.oneWord ["typeof", "void", "delete"]]) :=
    any ⟨mark _, mark _, sign _, sign _, oneWord _, trivial⟩
  have hyielded : Covers source (Rule.or (Rule.both (Script.mark "*") (rules (.expression w)))
      (rules (.expression w))) := ((mark _).both (hr _)).or (hr _)
  have hnamed : Covers source
      (Rule.all [Script.privateName, Script.wordAfter w.seam "in", rules (.joined 9 w)]) :=
    all ⟨privateName, wordAfter _ _, hr _, trivial⟩
  exact any ⟨tree rfl (((mark _).or (mark _)).both hmore), tree rfl (hsigns.both hmore),
    tree rfl ((word _).both (hmore.withoutEnd _)), tree rfl ((word _).both (hyielded.withoutEnd _).maybe),
    tree rfl hnamed,
    assigned hr (withSuffixes hr (((ahead _).both (newOperand hr w)).or (atom hr w)) w true) w,
    trivial⟩

/-! ## 7. Operators -/

theorem Covers.choiceTail (w : Within) : Covers source (choiceTail rules w) :=
  all ⟨markAfter _ _, hr _, closing _, hr _, trivial⟩

-- Operators and operands go with the first operand.
theorem reads_joinedTail {level : Nat} {w : Within} {n : Nat} {xs ys : List Node}
    {c d e : Cursor} (hx : Reads source c xs d)
    (h : joinedTail rules level w n xs d = some (ys, e)) : Reads source c ys e := by
  induction n generalizing xs d with
  | zero =>
    cases h
    exact hx
  | succ n ih =>
    unfold joinedTail at h
    split at h
    · cases h
      exact hx
    split at h
    · split at h
      · split at h
        · cases h
        next more e' hm =>
        exact ih (hx.graft rfl (Covers.choiceTail hr w hx.on hm) e'.pos) h
      · cases h
        exact hx
    split at h
    · cases h
      exact hx
    next o k least ho =>
    split at h
    · cases h
      exact hx
    extract_lets sign at h
    have hsign : Covers source sign := .leafAt fun h => by cases h; simp [Kind.isToken]
    split at h
    · cases h
    next more e' hm => exact ih (hx.graft rfl (hsign.both (hr _) hx.on hm) e'.pos) h

theorem Covers.joined (level : Nat) (w : Within) : Covers source (joined rules level w) := by
  intro c d xs hc h
  unfold Script.joined at h
  split at h
  · cases h
  next ys e hy => exact reads_joinedTail hr (hr _ hc hy) h

end

end Baselines.Script
