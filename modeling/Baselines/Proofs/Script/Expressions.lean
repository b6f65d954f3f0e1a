import Baselines.Proofs.Script.Patterns
import Baselines.Script.Expression

/-!
# What the rules of expressions read

Every rule covers a text if the rules of its parts do.
-/

namespace Baselines.Script.Covers

variable {source : Text} {rules : Rules}

/-! ## 1. Rules on other rules -/

theorem withoutEnd {r : Rule} (hr : Covers source r) (seam : Seam) :
    Covers source (withoutEnd seam r) := by
  intro c d xs hc h
  unfold Script.withoutEnd at h
  split at h
  · cases h
  · exact hr hc h

theorem closing (m : Text) : Covers source (closing m) := markAfter .inner m

theorem plainName : Covers source plainName := nameAs rfl

theorem propertyWord : Covers source propertyWord := wordLike rfl _

-- Names with properties after dots go with what stands before them.
theorem dottedUpTo {n : Nat} {xs : List Node} {c d : Cursor} (hx : Reads source c xs d) :
    Reads source c (dottedUpTo n xs d).1 (dottedUpTo n xs d).2 := by
  induction n generalizing xs d with
  | zero => exact hx
  | succ n ih =>
    unfold Script.dottedUpTo
    split
    · exact hx
    · next more e hm => exact ih (hx.graft rfl ((mark _).both propertyWord hx.on hm) e.pos)

theorem dotted {name : Rule} (hn : Covers source name) : Covers source (dotted name) := by
  intro c d xs hc h
  unfold Script.dotted at h
  split at h
  · cases h
  · next ys e hy =>
    have hd := dottedUpTo (n := e.rest.length + 1) (hn hc hy)
    obtain ⟨rfl, rfl⟩ := Prod.mk.inj (Option.some.inj h)
    exact hd

theorem functionHead {star name : Rule} (hs : Covers source star) (hn : Covers source name) :
    Covers source (functionHead star name) :=
  all ⟨((word _).both (withoutEnd nothing _)).maybe, word _, hs, hn, trivial⟩

theorem blockOrElse {asBlock asObject : Rule} (hb : Covers source asBlock)
    (ho : Covers source asObject) : Covers source (blockOrElse asBlock asObject) :=
  ((ahead _).both ho).or (hb.or ho)

theorem sign (m : Text) : Covers source (sign m) := (mark m).barring _

theorem staticGet : Covers source staticGet := by
  refine leafAt fun h => ?_
  split at h
  · cases h
  · simp only at h
    split at h
    · cases h
    · split at h <;> cases h
      decide

/-! ## 2. Rules on the rules of parts -/

section

variable (hr : ∀ g, Covers source (rules g))
include hr

theorem expressions (w : Within) : Covers source (expressions rules w) := by
  intro c d xs hc h
  unfold Script.expressions at h
  split at h
  · cases h
  · next ys e hy =>
    have hy := hr _ hc hy
    split at h
    · cases h
      exact hy
    · next more e' _ hm =>
      cases h
      exact hy.graft rfl (((markAfter _ _).both (hr _)).many hy.on hm) _
    · cases h

theorem spread : Covers source (spread rules) := tree rfl ((mark _).both (hr _))

theorem condition : Covers source (condition rules) :=
  tree rfl (all ⟨mark _, expressions hr _, closing _, trivial⟩)

theorem propertyName : Covers source (propertyName rules) :=
  any ⟨propertyWord, privateName, lexeme rfl _, lexeme rfl _,
    tree rfl (all ⟨mark _, hr _, closing _, trivial⟩), trivial⟩

-- Items in parentheses or brackets.
theorem items : Covers source (Script.commaList (Rule.or (Script.spread rules) (inner rules))) :=
  commaList ((spread hr).or (hr _))

theorem parameters : Covers source (parameters rules) := by
  refine tree rfl (change (all ⟨mark _, items hr, closing _, trivial⟩) fun {xs ys} h => ?_)
  split at h
  · have ha : Alike source xs ys := patterns?_eq_some h
    exact ⟨ha.texts, ha.solid_of_solid⟩
  · cases h

theorem argumentsAfter (seam : Seam) : Covers source (argumentsAfter rules seam) :=
  tree rfl (all ⟨markAfter _ _, items hr, closing _, trivial⟩)

theorem functionExpression : Covers source (functionExpression rules) :=
  (tree rfl ((functionHead (mark _) (maybe plainName)).both ((parameters hr).both (hr _)))).or
    (tree rfl ((functionHead nothing (maybe plainName)).both ((parameters hr).both (hr _))))

theorem decorator : Covers source (decorator rules) := by
  refine tree rfl ((mark _).both (.or ?_ (condition hr)))
  intro c d xs hc h
  simp only at h
  split at h
  · cases h
  · next ys e hy =>
    have hy := dotted plainName hc hy
    split at h
    · cases h
      exact hy
    · next more e' hm =>
      cases h
      exact hy.graft rfl (argumentsAfter hr _ hy.on hm) _

theorem method (inClass : Bool) : Covers source (method rules inClass) := by
  unfold Script.method
  extract_lets stay tail accessor later
  have hstay : Covers source stay := by
    cases inClass
    · exact nothing
    · exact withoutEnd nothing _
  have htail : Covers source tail := all ⟨propertyName hr, parameters hr, hr _, trivial⟩
  have haccessor : Covers source accessor :=
    any ⟨all ⟨(word _).or (word _), hstay, htail, trivial⟩, (mark _).both htail, htail, trivial⟩
  have hlater : Covers source later := by
    refine or ?_ haccessor
    exact all ⟨word _, hstay, haccessor, trivial⟩
  refine tree rfl ((decorator hr).many.both (or (both staticGet hlater) (barring (or ?_ hlater) _)))
  exact all ⟨word _, hstay, hlater, trivial⟩

theorem initializer (w : Within) : Covers source (initializer rules w) :=
  (markAfter _ _).both (hr _)

theorem field : Covers source (field rules) := by
  intro c d xs hc h
  unfold Script.field at h
  extract_lets stay named whole at h
  have hnamed : Covers source named := (propertyName hr).both (initializer hr _).maybe
  have hwhole : Covers source whole := tree rfl ((decorator hr).many.both
    (or (all ⟨word _, withoutEnd nothing _, hnamed, trivial⟩) hnamed))
  split at h
  · cases h
  · next ys e hy =>
    have hy := hwhole hc hy
    obtain ⟨zs, e', us, hz, hu, rfl⟩ := both_eq_some.1 h
    cases hz
    exact hy.append (semicolon _ hy.on hu)

theorem classMember : Covers source (classMember rules) :=
  any ⟨mark _, tree rfl (all ⟨word _, withoutEnd nothing _, hr _, trivial⟩),
    (method hr true).both (mark _).maybe, field hr, trivial⟩

theorem classTail : Covers source (classTail rules) :=
  (tree rfl ((word _).both (hr _))).maybe.both
    (tree rfl (all ⟨mark _, (classMember hr).many, mark _, trivial⟩))

theorem classExpression : Covers source (classExpression rules) :=
  tree rfl (all ⟨(decorator hr).many, word _, maybe plainName, classTail hr, trivial⟩)

theorem objectMember : Covers source (objectMember rules) :=
  any ⟨spread hr, tree rfl (all ⟨propertyName hr, mark _, hr _, trivial⟩), method hr false,
    tree rfl (all ⟨nameAs rfl, mark _, hr _, trivial⟩), nameAs rfl, trivial⟩

theorem object : Covers source (object rules) :=
  tree rfl (all ⟨mark _, commaList (objectMember hr), closing _, trivial⟩)

theorem array : Covers source (array rules) :=
  tree rfl (all ⟨mark _, items hr, closing _, trivial⟩)

end

end Baselines.Script.Covers
