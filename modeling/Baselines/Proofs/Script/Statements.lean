import Baselines.Proofs.Script.Operands

/-!
# What the rules of statements read

The rules of statements and declarations, and with them a whole script: its text is a layout of the
tokens of its tree.
-/

namespace Baselines.Script

variable {source : Text} {rules : Rules}

namespace Covers

/-! ## 1. Declarations -/

-- The last of the trees that a rule gives, turned into what it assigns to.
theorem lastChanged {r : Rule} (hc : Covers source r) {f : Node → Option Node}
    (hf : ∀ {n p}, f n = some p → texts source [p] = texts source [n] ∧ p.isComment = false) :
    Covers source (Rule.change (fun ns => do
      let n ← ns.getLast?
      let p ← f n
      some (ns.dropLast ++ [p])) r) := by
  refine change hc fun {xs ys} h => ?_
  simp only [Option.bind_eq_bind, Option.bind_eq_some_iff, Option.some.injEq] at h
  obtain ⟨n, hn, p, hp, rfl⟩ := h
  obtain ⟨front, rfl⟩ := List.getLast?_eq_some_iff.1 hn
  obtain ⟨ht, hp⟩ := hf hp
  rw [List.dropLast_concat, texts_append, texts_append, ht]
  exact ⟨rfl, fun _ => .inr ⟨p, List.mem_append_right _ (List.mem_singleton_self _), hp⟩⟩

theorem afterLet : Covers source afterLet := (ahead _).withoutEnd _

theorem functionStart : Covers source functionStart := ahead _

theorem plainEnd : Covers source plainEnd := semicolon _

section

variable (hr : ∀ g, Covers source (rules g))
include hr

theorem declared : Covers source (declared rules) :=
  or plainName (lastChanged ((hr _).or (hr _)) fun h =>
    And.imp_right And.right (pattern?_eq_some h))

theorem declarator : Covers source (declarator rules) :=
  tree rfl ((declared hr).both (initializer hr _).maybe)

/-- Further declarators are read one by one, whatever their number. -/
theorem declaratorsUpTo {n : Nat} {xs : List Node} {c d : Cursor} (hx : Reads source c xs d) :
    Reads source c (declaratorsUpTo rules n xs d).1 (declaratorsUpTo rules n xs d).2 := by
  induction n generalizing xs d with
  | zero => exact hx
  | succ n ih =>
    unfold Script.declaratorsUpTo
    split
    · exact hx
    · next more e hm => exact ih (hx.append ((markAfter _ _).both (declarator hr) hx.on hm))

theorem declarators : Covers source (declarators rules) := by
  intro c d xs hc h
  unfold Script.declarators at h
  split at h
  · cases h
  next ys e hy =>
  have hread := declaratorsUpTo hr (n := e.rest.length) (declarator hr hc hy)
  obtain ⟨zs, e', us, hz, hu, rfl⟩ := both_eq_some.1 h
  cases hz
  exact hread.append (semicolon _ hread.on hu)

theorem variableList : Covers source (variableList rules) := by
  refine any ⟨tree rfl ((word _).both (declarators hr)), tree rfl ((word _).both (declarators hr)),
    tree rfl ?_, tree rfl ?_, trivial⟩
  · exact all ⟨word _, afterLet, declarators hr, trivial⟩
  · exact all ⟨(word _).maybe, word _, afterLet, declarators hr, trivial⟩

theorem functionDeclaration : Covers source (functionDeclaration rules) :=
  (tree rfl ((functionHead (mark _) plainName).both ((parameters hr).both (hr _)))).or
    (tree rfl ((functionHead nothing plainName).both ((parameters hr).both (hr _))))

theorem classDeclaration : Covers source (classDeclaration rules) :=
  tree rfl (all ⟨(decorator hr).many, word _, plainName, classTail hr, trivial⟩)

theorem declaration : Covers source (declaration rules) :=
  any ⟨both functionStart (functionDeclaration hr), (ahead _).both (classDeclaration hr),
    variableList hr, trivial⟩

end

/-! ## 2. Modules -/

theorem exportedName : Covers source exportedName := any ⟨plainName, lexeme rfl _, word _, trivial⟩

theorem moduleSource : Covers source Script.source := (word _).both (lexeme rfl _)

theorem braced {item : Rule} (hi : Covers source item) : Covers source (braced item) :=
  all ⟨mark _, (((mark _).separated hi).both (mark _).maybe).maybe, mark _, trivial⟩

/-- An import covers its clauses and its source. -/
theorem importStatement (hr : ∀ g, Covers source (rules g)) :
    Covers source (importStatement rules) := by
  unfold Script.importStatement
  extract_lets everything chosen others clause properties
  have heverything : Covers source everything := tree rfl (all ⟨mark _, word _, plainName, trivial⟩)
  have hspecified : Covers source
      (Rule.all [Script.exportedName, Script.word "as", Script.plainName]) :=
    all ⟨exportedName, word _, plainName, trivial⟩
  have hchosen : Covers source chosen := tree rfl (braced (tree rfl (hspecified.or plainName)))
  have hothers : Covers source others := heverything.or hchosen
  have hclause : Covers source clause :=
    tree rfl (hothers.or (both plainName ((mark _).both hothers).maybe))
  have hproperties : Covers source properties := tree rfl ((word _).both (hr _))
  exact tree rfl (all ⟨word _, (hclause.both moduleSource).or (lexeme rfl _), hproperties.maybe, plainEnd,
    trivial⟩)

/-- An export covers each of its forms. -/
theorem exportStatement (hr : ∀ g, Covers source (rules g)) :
    Covers source (exportStatement rules) := by
  unfold Script.exportStatement
  extract_lets clause everything
  have hclause : Covers source clause :=
    tree rfl (braced (tree rfl (both exportedName ((word _).both exportedName).maybe)))
  have heverything : Covers source everything := by
    refine or (tree rfl ?_) (mark _)
    exact all ⟨mark _, word _, exportedName, trivial⟩
  have hdefault := (declaration hr).or (barring ((hr (.expression .statement)).both (semicolon true))
    (.or Script.functionStart (classStart rules)))
  refine tree rfl ((decorator hr).many.both ((word _).both ?_))
  refine any ⟨?_, ?_, (word _).both hdefault, declaration hr, trivial⟩
  · exact all ⟨heverything, moduleSource, plainEnd, trivial⟩
  · exact all ⟨hclause, maybe moduleSource, plainEnd, trivial⟩

/-! ## 3. Simple statements -/

/-- A jump covers its word and the label behind it. -/
theorem jump {shape : Shape} (hs : shape.isInner = true) (w : Text) :
    Covers source (jump shape w) :=
  tree hs (all ⟨word _, (withoutEnd (nameAs rfl) _).maybe, plainEnd, trivial⟩)

theorem emptyStatement : Covers source emptyStatement := tree rfl (mark _)

section

variable (hr : ∀ g, Covers source (rules g))
include hr

theorem expressionStatement : Covers source (expressionStatement rules) :=
  tree rfl (((expressions hr _).barring _).both (semicolon _))

theorem returnStatement : Covers source (returnStatement rules) :=
  tree rfl ((word _).both ((((expressions hr _).withoutEnd _).both (semicolon _)).or plainEnd))

theorem labeledStatement : Covers source (labeledStatement rules) :=
  tree rfl (all ⟨wordLike rfl _, markAfter _ _, hr _, trivial⟩)

/-! ## 4. Compound statements -/

theorem block : Covers source (block rules) := tree rfl (all ⟨mark _, (hr _).many, mark _, trivial⟩)

theorem ifStatement : Covers source (ifStatement rules) :=
  tree rfl (all ⟨word _, condition hr, hr _, (tree rfl ((word _).both (hr _))).maybe, trivial⟩)

/-- A switch covers its cases. -/
theorem switchStatement : Covers source (switchStatement rules) := by
  unfold Script.switchStatement
  extract_lets body case
  have hbody : Covers source body := (hr _).many
  have hcase : Covers source case := by
    refine or (tree rfl ?_) (tree rfl ?_)
    · exact all ⟨word _, expressions hr _, closing _, hbody, trivial⟩
    · exact all ⟨word _, mark _, hbody, trivial⟩
  exact tree rfl (all ⟨word _, condition hr, tree rfl (all ⟨mark _, hcase.many, mark _, trivial⟩),
    trivial⟩)

theorem forTarget : Covers source (forTarget rules) := by
  unfold Script.forTarget
  extract_lets within assigned
  have hassigned : Covers source assigned := lastChanged (hr _) assignee?_eq_some
  refine any ⟨?_, ((word _).or (word _)).both (declared hr), ?_, hassigned, trivial⟩
  · exact all ⟨word _, declared hr, (initializer hr _).maybe, trivial⟩
  · exact all ⟨(word _).maybe, word _, declared hr, trivial⟩

theorem forInStatement : Covers source (forInStatement rules) :=
  tree rfl (all ⟨word _, (word _).maybe, mark _, forTarget hr, (wordAfter _ _).or (wordAfter _ _),
    expressions hr _, closing _, hr _, trivial⟩)

/-- A loop covers its three parts, be they empty. -/
theorem forStatement : Covers source (forStatement rules) := by
  unfold Script.forStatement
  extract_lets part
  have hpart : Covers source part := ((expressions hr _).both (closing _)).or emptyStatement
  exact tree rfl (all ⟨word _, mark _, (variableList hr).or hpart, hpart, (expressions hr _).maybe,
    closing _, hr _, trivial⟩)

theorem whileStatement : Covers source (whileStatement rules) :=
  tree rfl (all ⟨word _, condition hr, hr _, trivial⟩)

theorem doStatement : Covers source (doStatement rules) :=
  tree rfl (all ⟨word _, hr _, word _, condition hr, maybe plainEnd, trivial⟩)

theorem tryStatement : Covers source (tryStatement rules) := by
  unfold Script.tryStatement
  extract_lets handler finalizer
  have hparameter : Covers source
      (Rule.all [Script.mark "(", Script.declared rules, Script.closing ")"]) :=
    all ⟨mark _, declared hr, closing _, trivial⟩
  have hhandler : Covers source handler := tree rfl (all ⟨word _, hparameter.maybe, hr _, trivial⟩)
  have hfinalizer : Covers source finalizer := tree rfl ((word _).both (hr _))
  exact tree rfl (all ⟨word _, hr _, hhandler.maybe, hfinalizer.maybe, trivial⟩)

theorem withStatement : Covers source (withStatement rules) :=
  tree rfl (all ⟨word _, condition hr, hr _, trivial⟩)

/-! ## 5. Statements -/

/-- What is a statement or else an expression is covered either way. -/
theorem orExpression {r : Rule} (hc : Covers source r) :
    Covers source (orExpression rules r) := by
  intro c d xs hon h
  unfold Script.orExpression at h
  split at h
  · cases h
  next ys e hy =>
  split at h
  · rcases or_eq_some h with h | h
    · exact expressionStatement hr hon h
    · cases h
      exact hc hon hy
  · cases h
    exact hc hon hy

theorem braceStatement : Covers source (braceStatement rules) := by
  have hobject := (expressionStatement hr).when fun ns => !Node.anyStray ns
  exact blockOrElse ((orExpression hr (hr _)).or hobject) hobject

/-- A statement is covered, whichever it is. -/
theorem statement : Covers source (statement rules) := by
  have hthrown : Covers source
      (Rule.all [Script.word "throw", Script.expressions rules .statement, Script.semicolon true]) :=
    all ⟨word _, expressions hr _, semicolon _, trivial⟩
  exact any ⟨(ahead _).both (braceStatement hr), emptyStatement, ifStatement hr, forInStatement hr,
    forStatement hr, whileStatement hr, doStatement hr, switchStatement hr, tryStatement hr,
    withStatement hr, returnStatement hr, tree rfl hthrown, jump rfl _, jump rfl _,
    tree rfl ((word _).both plainEnd), importStatement hr, exportStatement hr, variableList hr,
    both functionStart (orExpression hr (functionDeclaration hr)),
    (ahead _).both (orExpression hr (classDeclaration hr)), labeledStatement hr,
    (expressionStatement hr).barring _, trivial⟩

end

/-! ## 6. Scripts -/

/-- One step covers a text if the rules of the parts do. -/
theorem step (hr : ∀ g, Covers source (rules g)) : ∀ g, Covers source (step rules g)
  | .statement => statement hr
  | .block => block hr
  | .expression w => joined hr 0 w
  | .joined level w => joined hr level w
  | .operand w => operand hr w
  | .constructed w => constructed hr w
  | .object => object hr
  | .array => array hr
  | .element => element hr

/-- The rules of every depth cover every text. -/
theorem rulesUpTo (source : Text) (n : Nat) : ∀ g, Covers source (rulesUpTo n g) := by
  induction n with
  | zero => exact fun _ => fail
  | succ n ih => exact step ih

end Covers

theorem texts_singleton (t : Node) :
    texts source [t] = (t.tokens source).map Token.text := by
  simp [texts, Node.allTokens]

-- Up to a place that nothing comes after lies the whole text.
theorem On.slice_eq_self {c : Cursor} (hc : On source c) (h : c.rest = []) :
    slice source 0 c.pos = source := by
  have hlen : source.length ≤ c.pos := List.drop_eq_nil_iff.1 (hc.symm.trans h)
  simpa [slice] using List.take_of_length_le hlen

/-- A script is a layout of the tokens of its tree: nothing else stands in it but blanks and
comments. -/
theorem layout_of_parse? {t : Node} (h : parse? source = some t) :
    Layout ((t.tokens source).map Token.text) source := by
  unfold parse? at h
  split at h
  · cases h
  split at h
  · cases h
  next xs c hs =>
  split at h
  · cases h
  next a ha =>
  extract_lets whole at h
  split at h
  case isFalse => cases h
  next hend =>
  cases h
  have hread : Reads source (.start source) xs c :=
    (Covers.maybe (.lexeme rfl _)).both (Covers.rulesUpTo source _ _).many (on_start source) hs
  obtain ⟨hcomments, hpass⟩ := approach_eq_some hread.on ha
  have hwhole : texts source whole = texts source xs := by
    rw [texts_append, texts_of_comments hcomments, List.append_nil]
  have htree : texts source
      [.node (.named .program) (beginning a.token.pos whole) a.token.pos whole] =
        texts source whole := by
    by_cases hw : whole = []
    · rw [hw]
      exact (texts_leaf rfl _ _).trans (by simp [beginning, texts_nil])
    · exact texts_inner rfl _ _ hw
  have hlayout := hread.layout.append (.gap hpass.gap)
  rw [List.append_nil, slice_append hread.le hpass.le] at hlayout
  rw [← texts_singleton, htree, hwhole]
  have hself : slice source (Cursor.start source).pos a.token.pos = source :=
    hpass.on.slice_eq_self hend.1
  rwa [hself] at hlayout

end Baselines.Script
