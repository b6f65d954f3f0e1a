import Baselines.Proofs.Name.RoundTrip

/-!
# Names that are read twice

What is written for a name that was read is read as that name again, unless its file name had
parentheses without an option in them. Those are not written, and then the end of the test stands
where a variant or a stage is looked for.
-/

namespace Baselines.Name

open Text

variable {t name : Text} {n : Name} {o : Text × Text} {os : List (Text × Text)}

/-! ## 1. Whatever was read -/

/-- What holds of every name that is read. -/
structure Readable (n : Name) : Prop where
  extension : n.extension ∈ extensions
  test : n.test ≠ []
  opening : '(' ∉ n.test
  options : ∀ o ∈ n.options, Enclosed o
  variant : ∀ v, n.variant = some v → v < variantBound

theorem mem_of_mem_option {inner : Text} (h : readOptions name (splitOn ',' inner) = .ok os)
    (ho : o ∈ os) {c : Char} (hc : c ∈ o.1 ∨ c ∈ o.2) : c ∈ inner := by
  obtain ⟨raw, hraw, key, value, he, -, rfl⟩ := mem_readOptions h ho
  apply mem_of_mem_splitOn hraw
  apply mem_of_mem_trim
  rw [he, List.mem_append]
  rcases hc with hc | hc
  · exact Or.inl (mem_of_mem_trim hc)
  · exact Or.inr (List.mem_cons_of_mem _ (mem_of_mem_trim hc))

-- Options that are read between parentheses keep their places there.
theorem enclosed_of_readOptions {inner : Text} (hopen : '(' ∉ inner) (hclose : ')' ∉ inner)
    (h : readOptions name (splitOn ',' inner) = .ok os) (ho : o ∈ os) : Enclosed o := by
  have hnot : ∀ c ∈ ['(', ')'], c ∉ inner := by
    intro c hc
    rcases List.mem_pair.1 hc with rfl | rfl
    · exact hopen
    · exact hclose
  exact ⟨legible_of_readOptions h ho, fun c hc hm => hnot c hc (mem_of_mem_option h ho (Or.inl hm)),
    fun c hc hm => hnot c hc (mem_of_mem_option h ho (Or.inr hm))⟩

theorem readable_of_parse (h : parse t = .ok n) : Readable n := by
  obtain ⟨stem, staged, varied, -, he, -, hvariant, hstem, hne⟩ := parse_eq_ok.1 h
  have hv : ∀ v, n.variant = some v → v < variantBound := by
    intro v hv
    rcases peel_eq hvariant with ⟨hnone, -⟩ | ⟨piece, -, -, hread, -⟩
    · rw [hnone] at hv
      exact absurd hv (by simp)
    · exact (variant?_eq_some.1 (hread.trans hv)).2.2.2
  rcases splitStem_ok hstem with ⟨htest, hos, hopen, -⟩ | ⟨inner, -, hopen, hio, hic, hread⟩
  · refine ⟨he, hne, htest ▸ hopen, ?_, hv⟩
    rw [hos]
    simp
  · exact ⟨he, hne, hopen, fun o ho => enclosed_of_readOptions hio hic hread ho, hv⟩

/-! ## 2. Without options -/

/-- Whether the test of a name can stand where no parentheses follow it: nothing in it closes one,
and its end is taken for no variant and no stage that the name does not have. -/
structure Bare (n : Name) : Prop where
  closing : ')' ∉ n.test
  variant : n.variant = none → Silent variant? n.test
  stage : n.variant = none → n.stage = none → Silent stage? n.test

-- A name that was read without parentheses can be written without them.
theorem bare_of_parse (h : parse t = .ok n) (ht : '(' ∉ t) : Bare n := by
  obtain ⟨stem, staged, varied, hlast, -, hstage, hvariant, hstem, -⟩ := parse_eq_ok.1 h
  rcases splitStem_ok hstem with ⟨htest, -, -, hclose⟩ | ⟨inner, he, -⟩
  · refine ⟨htest ▸ hclose, fun hv => ?_, fun hv hs => ?_⟩
    · rw [hv] at hvariant
      obtain ⟨he, hsilent⟩ := silent_of_peel hvariant
      rwa [htest, he]
    · rw [hv] at hvariant
      rw [hs] at hstage
      obtain ⟨he, hsilent⟩ := silent_of_peel hstage
      rwa [htest, (silent_of_peel hvariant).1, he]
  · refine absurd ?_ ht
    rw [(splitLast?_eq_some hlast).1]
    apply List.mem_append_left
    apply mem_of_mem_peel hstage
    apply mem_of_mem_peel hvariant
    rw [he]
    exact List.mem_append_right _ List.mem_cons_self

/-! ## 3. Reading what was written for what was read -/

theorem parse_render_of_readable (h : Readable n) :
    parse n.render = .ok n ↔ (n.options = [] → Bare n) := by
  have hlast := splitLast?_render h.extension
  have hstage := fun s (_ : n.stage = some s) => And.intro (stage?_label s) (not_mem_label s)
  have hvariant := fun v (hv : n.variant = some v) =>
    And.intro (variant?_ofNat_of_lt (h.variant v hv)) (not_mem_ofNat v)
  constructor
  · intro hp hos
    obtain ⟨stem, staged, varied, hl, -, hs, hv, hstem, -⟩ := parse_eq_ok.1 hp
    rw [hlast, Option.some.injEq, Prod.mk.injEq] at hl
    rw [← hl.1] at hs
    obtain ⟨rfl, hsilent⟩ := (peel_dotted hstage).1 hs
    obtain ⟨rfl, hsilent'⟩ := (peel_dotted hvariant).1 hv
    refine ⟨(splitStem_stem.1 hstem).2.1 hos, fun hnone => ?_, fun hnone hs => ?_⟩
    · rw [← stem_of_nil hos]
      exact hsilent' hnone
    · exact silent_stage.1 (hsilent hs) hos hnone
  · intro hb
    refine parse_eq_ok.2 ⟨_, _, _, hlast, h.extension, (peel_dotted hstage).2 ⟨rfl, fun hs => ?_⟩,
      (peel_dotted hvariant).2 ⟨rfl, fun hv => ?_⟩, splitStem_stem.2 ⟨h.opening, fun hos =>
        (hb hos).closing, h.options⟩, h.test⟩
    · exact silent_stage.2 fun hos hv => (hb hos).stage hv hs
    · exact (silent_stem fun _ => variant?_of_mem (by decide)).2 fun hos => (hb hos).variant hv

/-- A name that was read is read again from what is written for it, except where the parentheses of
its file name held no option and the test cannot do without them. -/
theorem reparse_iff (h : parse t = .ok n) :
    parse n.render = .ok n ↔ (n.options = [] → '(' ∈ t → Bare n) := by
  rw [parse_render_of_readable (readable_of_parse h)]
  constructor
  · exact fun hb hos _ => hb hos
  · intro hb hos
    by_cases ht : '(' ∈ t
    · exact hb hos ht
    · exact bare_of_parse h ht

-- What is read from a file name with blanks, zeros and capitals that are not written again.
def tidiedName : Name where
  test := "a).7"
  options := [("K", "v=")]
  variant := some 7
  stage := some .minified
  extension := "js"

theorem reparse_iff_tidied : parse "a).7( , K = v= ,).007.Minified.js" = .ok tidiedName ∧
    parse tidiedName.render = .ok tidiedName := by
  have h : parse "a).7( , K = v= ,).007.Minified.js" = .ok tidiedName := by decide +kernel
  exact ⟨h, (reparse_iff h).2 fun hos => absurd hos (by decide)⟩

/-- Without its empty parentheses, the end of a test is taken for a variant, and a parenthesis in
it is refused. -/
theorem reparse_emptied : parse "a.7().js" = .ok exposedName ∧
    parse exposedName.render ≠ .ok exposedName ∧
    parse "a)().js" = .ok { exposedName with test := "a)" } ∧
    parse { exposedName with test := "a)" }.render = .error (.unbalanced "a).js") := by
  refine ⟨?_, ?_, ?_, ?_⟩
  · decide +kernel
  · decide +kernel
  · decide +kernel
  · decide +kernel

end Baselines.Name
