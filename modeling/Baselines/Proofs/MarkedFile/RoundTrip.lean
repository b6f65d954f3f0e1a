import Baselines.Proofs.MarkedFile.Rendering

/-!
# The files that are read as they were written

Which marked files come back from their own text: exactly those with at least one section, of which
all but the first have a name that a marker can hold, and whose lines are neither markers nor end in
a carriage return. A first section without a name must not begin with a byte order mark.
-/

namespace Baselines.MarkedFile

open Text

/-! ## 1. Blocks -/

theorem blocks_append_code {front : List Text} (h : ∀ l ∈ front, isMarker l = false)
    (ls : List Text) : blocks (front ++ ls) = (front ++ (blocks ls).1, (blocks ls).2) := by
  induction front with
  | nil => rfl
  | cons l r ih =>
    have hl : marker? l = none := by simpa [isMarker] using h l List.mem_cons_self
    rw [List.cons_append, blocks, hl, ih fun x hx => h x (List.mem_cons_of_mem l hx)]
    rfl

theorem blocks_cons_marker {l file : Text} (h : marker? l = some file) (r : List Text) :
    blocks (l :: r) = ([], (file, (blocks r).1) :: (blocks r).2) := by
  rw [blocks, h]

/-- Each marker line begins one named section. -/
theorem countP_blocks (ls : List Text) : (blocks ls).2.length = ls.countP isMarker := by
  induction ls with
  | nil => rfl
  | cons l r ih =>
    rw [blocks, List.countP_cons]
    cases h : marker? l with
    | none => simp [isMarker, h, ih]
    | some file => simp [isMarker, h, ih]

/-! ## 2. Files by their sections -/

/-- The file with an unnamed section, if there is one, before named ones. -/
def ofParts (unnamed : Option Text) (named : List (Text × Text)) : MarkedFile :=
  ⟨unnamed.toList.map (fun b => { file := none, body := b }) ++
    named.map fun p => { file := some p.1, body := p.2 }⟩

theorem ofParts_injective {u v : Option Text} {ns ms : List (Text × Text)}
    (h : ofParts u ns = ofParts v ms) : u = v ∧ ns = ms := by
  have hnamed : ∀ {a b : List (Text × Text)}, (a.map fun p => ({ file := some p.1, body := p.2 } :
      Section)) = (b.map fun p => { file := some p.1, body := p.2 }) → a = b := by
    intro a b hab
    refine List.map_injective_iff.2 (fun p q hpq => ?_) hab
    simpa [Prod.ext_iff] using hpq
  have hs := congrArg MarkedFile.sections h
  unfold ofParts at hs
  cases u with
  | none =>
    cases v with
    | none => exact ⟨rfl, hnamed (by simpa using hs)⟩
    | some c => cases ns <;> simp at hs
  | some b =>
    cases v with
    | none => cases ms <;> simp at hs
    | some c =>
      simp only [Option.toList_some, List.map_singleton, List.singleton_append, List.cons.injEq,
        Section.mk.injEq, true_and] at hs
      exact ⟨congrArg some hs.1, hnamed hs.2⟩

/-- The file of some lines, by its unnamed and its named sections. -/
theorem ofLines_eq (ls : List Text) : ofLines ls =
    ofParts (if (blocks ls).1 = [] then none else some (unlines (blocks ls).1))
      ((blocks ls).2.map fun b => (b.1, unlines b.2)) := by
  unfold ofLines ofParts
  by_cases h : (blocks ls).1 = [] <;> simp [h, Function.comp_def]

theorem exists_ofParts {f : MarkedFile} (h : ∀ s ∈ f.sections.tail, s.file ≠ none) :
    ∃ u ns, f = ofParts u ns := by
  have hnamed : ∀ ss : List Section, (∀ s ∈ ss, s.file ≠ none) → ∃ ns : List (Text × Text),
      ss = ns.map fun p => { file := some p.1, body := p.2 } := by
    intro ss hss
    refine ⟨ss.map fun s => (s.file.getD [], s.body), ?_⟩
    rw [List.map_map]
    conv_lhs => rw [← List.map_id ss]
    refine List.map_congr_left fun s hs => ?_
    obtain ⟨file, hf⟩ := Option.ne_none_iff_exists'.1 (hss s hs)
    cases s
    simp_all
  obtain ⟨ss⟩ := f
  cases ss with
  | nil => exact ⟨none, [], rfl⟩
  | cons s r =>
    obtain ⟨ns, hr⟩ := hnamed r h
    obtain ⟨file, body⟩ := s
    cases file with
    | none => exact ⟨some body, ns, by simp [ofParts, hr]⟩
    | some name => exact ⟨none, (name, body) :: ns, by simp [ofParts, hr]⟩

/-! ## 3. Written lines -/

/-- The lines that a body is written on; an empty one is not written below its marker. -/
def bodyLines (b : Text) : List Text := if b = [] then [] else splitOn '\n' b

/-- The lines that the sections of a file are written on. -/
def writtenLines (unnamed : Option Text) (named : List (Text × Text)) : List Text :=
  unnamed.elim [] (splitOn '\n') ++ named.flatMap fun p => markerLine p.1 :: bodyLines p.2

/-- A body as it is read back: without a return at the end of its lines. -/
def withoutReturns (b : Text) : Text := unlines ((splitOn '\n' b).map dropReturn)

theorem unlines_bodyLines (b : Text) :
    unlines ((bodyLines b).map dropReturn) = withoutReturns b := by
  unfold bodyLines
  split
  · rename_i h
    rw [h]
    rfl
  · rfl

theorem length_withoutReturns_le (b : Text) : (withoutReturns b).length ≤ b.length := by
  have key : ∀ ls : List Text, (unlines (ls.map dropReturn)).length ≤ (unlines ls).length := by
    intro ls
    induction ls with
    | nil => exact Nat.le_refl _
    | cons l r ih =>
      have hl := length_dropReturn_le l
      by_cases hr : r = []
      · simpa [hr, unlines, join] using hl
      · rw [List.map_cons, unlines_cons _ (by simpa using hr), unlines_cons l hr,
          List.length_append, List.length_append, List.length_cons, List.length_cons]
        omega
  have h := key (splitOn '\n' b)
  rwa [show unlines (splitOn '\n' b) = b from join_splitOn '\n' b] at h

theorem withoutReturns_eq_self {b : Text} :
    withoutReturns b = b ↔ ∀ l ∈ splitOn '\n' b, endsInReturn l = false := by
  have hne : (splitOn '\n' b).map dropReturn ≠ [] := by simpa using splitOn_ne_nil '\n' b
  have hlf : ∀ l ∈ (splitOn '\n' b).map dropReturn, '\n' ∉ l := by
    intro l hl
    obtain ⟨p, hp, rfl⟩ := List.mem_map.1 hl
    exact fun hm => not_mem_of_mem_splitOn hp (mem_of_mem_dropReturn hm)
  constructor
  · intro h l hl
    have hs := congrArg (splitOn '\n') h
    rw [withoutReturns, unlines, splitOn_join hne hlf] at hs
    have hs := hs.trans (List.map_id _).symm
    exact dropReturn_eq_self.1 (List.map_inj_left.1 hs l hl)
  · intro h
    rw [withoutReturns, List.map_inj_left.2 fun l hl => dropReturn_of_not (h l hl)]
    exact (congrArg unlines (List.map_id' _)).trans (join_splitOn '\n' b)

/-! ## 4. Written files -/

theorem exists_pieces_named (file body : Text) :
    ∃ r, Section.pieces { file := some file, body } = markerLine file :: r := by
  by_cases h : body = []
  · exact ⟨[], by simp [Section.pieces, h]⟩
  · exact ⟨[body], by simp [Section.pieces, h]⟩

theorem render_ofParts (u : Option Text) (ns : List (Text × Text)) : (ofParts u ns).render =
    join ['\n'] (u.toList ++ ns.flatMap fun p =>
      Section.pieces { file := some p.1, body := p.2 }) ++ ['\n'] := by
  unfold render ofParts
  cases u with
  | none => simp only [Option.toList_none, List.map_nil, List.nil_append, List.flatMap_map]
  | some b => simp only [Option.toList_some, List.map_singleton, List.flatMap_append,
      List.flatMap_map, List.flatMap_singleton, Section.pieces]

-- What is written after an unnamed section begins with the end of its last line.
theorem exists_render_unnamed (ns : List (Text × Text)) :
    ∃ w, ∀ b, (ofParts (some b) ns).render = b ++ '\n' :: w := by
  cases hp : ns.flatMap fun p => Section.pieces { file := some p.1, body := p.2 } with
  | nil => exact ⟨[], fun b => by rw [render_ofParts, hp]; rfl⟩
  | cons x r =>
    refine ⟨join ['\n'] (x :: r) ++ ['\n'], fun b => ?_⟩
    rw [render_ofParts, hp, Option.toList_some, List.singleton_append, join_cons b (by simp)]
    simp

theorem dropMark_render_ofParts (u : Option Text) (ns : List (Text × Text)) :
    dropMark (ofParts u ns).render = (ofParts (u.map dropMark) ns).render := by
  cases u with
  | some b =>
    obtain ⟨w, hw⟩ := exists_render_unnamed ns
    rw [Option.map_some, hw, hw]
    exact dropMark_append rfl
  | none =>
    apply dropMark_of_not
    rw [render_ofParts]
    cases ns with
    | nil => rfl
    | cons p r =>
      obtain ⟨rest, hr⟩ := exists_pieces_named p.1 p.2
      rw [Option.toList_none, List.nil_append, List.flatMap_cons, hr, List.cons_append]
      cases rest ++ r.flatMap fun p => Section.pieces { file := some p.1, body := p.2 } <;> rfl

theorem lines_render_ofParts {u : Option Text} {ns : List (Text × Text)}
    (hne : u ≠ none ∨ ns ≠ []) (hm : ∀ p ∈ ns, Markable p.1) :
    lines (ofParts u ns).render = (writtenLines u ns).map dropReturn := by
  have hpieces : ∀ p ∈ ns, (Section.pieces { file := some p.1, body := p.2 }).flatMap
      (splitOn '\n') = markerLine p.1 :: bodyLines p.2 := by
    intro p hp
    have hs : splitOn '\n' (markerLine p.1) = [markerLine p.1] :=
      splitOn_of_not_mem (not_mem_markerLine (hm p hp))
    simp only [Section.pieces, bodyLines]
    split
    · rw [List.flatMap_singleton, hs]
    · rw [List.flatMap_cons, List.flatMap_singleton, hs, List.singleton_append]
  rw [render_ofParts, lines_append_lineFeed, splitOn_join_pieces, List.flatMap_append,
    List.flatMap_assoc, List.flatMap_congr hpieces, writtenLines]
  · cases u <;> simp
  · intro h
    obtain ⟨hu, hn⟩ := List.append_eq_nil_iff.1 h
    rcases hne with hne | hne
    · exact hne (by simpa using hu)
    · obtain ⟨p, r, rfl⟩ := List.exists_cons_of_ne_nil hne
      obtain ⟨rest, hr⟩ := exists_pieces_named p.1 p.2
      rw [List.flatMap_cons, hr] at hn
      exact absurd hn (by simp)

/-! ## 5. Files read back -/

/-- The lines of code of a file with parts: those of its bodies, as they are written. -/
def writtenBodies (unnamed : Option Text) (named : List (Text × Text)) : List Text :=
  unnamed.elim [] (splitOn '\n') ++ named.flatMap fun p => bodyLines p.2

theorem mem_writtenBodies {u : Option Text} {ns : List (Text × Text)} {l : Text} :
    l ∈ writtenBodies u ns ↔
      (∃ b, u = some b ∧ l ∈ splitOn '\n' b) ∨ ∃ p ∈ ns, l ∈ bodyLines p.2 := by
  cases u <;> simp [writtenBodies]

/-- Every named section has its marker, and the lines of bodies may be markers too. -/
theorem countP_writtenLines {u : Option Text} {ns : List (Text × Text)}
    (hm : ∀ p ∈ ns, Markable p.1) : (writtenLines u ns).countP isMarker =
      ns.length + (writtenBodies u ns).countP isMarker := by
  have hns : (ns.flatMap fun p => markerLine p.1 :: bodyLines p.2).countP isMarker =
      ns.length + (ns.flatMap fun p => bodyLines p.2).countP isMarker := by
    induction ns with
    | nil => rfl
    | cons p r ih =>
      rw [List.flatMap_cons, List.flatMap_cons, List.countP_append, List.countP_append,
        List.countP_cons_of_pos (isMarker_markerLine (hm p List.mem_cons_self)),
        ih fun q hq => hm q (List.mem_cons_of_mem p hq), List.length_cons]
      omega
  rw [writtenLines, writtenBodies, List.countP_append, List.countP_append, hns]
  omega

/-- Where no line of a body is a marker, the file is read back with its sections. -/
theorem ofLines_writtenLines {u : Option Text} {ns : List (Text × Text)}
    (hm : ∀ p ∈ ns, Markable p.1) (hb : ∀ l ∈ writtenBodies u ns, isMarker l = false) :
    ofLines ((writtenLines u ns).map dropReturn) =
      ofParts (u.map withoutReturns) (ns.map fun p => (p.1, withoutReturns p.2)) := by
  have hcode : ∀ ls : List Text, (∀ l ∈ ls, isMarker l = false) →
      ∀ l ∈ ls.map dropReturn, isMarker l = false := by
    intro ls h l hl
    obtain ⟨k, hk, rfl⟩ := List.mem_map.1 hl
    rw [isMarker_dropReturn, h k hk]
  have hns : blocks ((ns.flatMap fun p => markerLine p.1 :: bodyLines p.2).map dropReturn) =
      ([], ns.map fun p => (p.1, (bodyLines p.2).map dropReturn)) := by
    have hbody : ∀ p ∈ ns, ∀ l ∈ bodyLines p.2, isMarker l = false := fun p hp l hl =>
      hb l (mem_writtenBodies.2 (Or.inr ⟨p, hp, hl⟩))
    clear hb
    induction ns with
    | nil => rfl
    | cons p r ih =>
      have hmark := hm p List.mem_cons_self
      rw [List.flatMap_cons, List.cons_append, List.map_cons, dropReturn_markerLine,
        blocks_cons_marker (marker?_markerLine hmark.nonempty hmark.bracket), List.map_append,
        blocks_append_code (hcode _ (hbody p List.mem_cons_self)),
        ih (fun q hq => hm q (List.mem_cons_of_mem p hq))
          fun q hq => hbody q (List.mem_cons_of_mem p hq), List.append_nil, List.map_cons]
  rw [ofLines_eq, writtenLines, List.map_append]
  cases u with
  | none =>
    rw [Option.elim_none, List.map_nil, List.nil_append, hns]
    simp [Function.comp_def, unlines_bodyLines]
  | some b =>
    have hfront := hcode (splitOn '\n' b) fun l hl =>
      hb l (mem_writtenBodies.2 (Or.inl ⟨b, rfl, hl⟩))
    rw [Option.elim_some, blocks_append_code hfront, hns]
    simp [Function.comp_def, unlines_bodyLines, withoutReturns, splitOn_ne_nil]

/-- Whether a file keeps its sections where they are written. -/
structure Regular (f : MarkedFile) : Prop where
  nonempty : f.sections ≠ []
  named : ∀ s ∈ f.sections.tail, s.file ≠ none
  markable : ∀ s ∈ f.sections, ∀ file, s.file = some file → Markable file
  code : ∀ s ∈ f.sections, ∀ l ∈ splitOn '\n' s.body, isMarker l = false
  returns : ∀ s ∈ f.sections, ∀ l ∈ splitOn '\n' s.body, endsInReturn l = false
  mark : ∀ s, f.sections.head? = some s → s.file = none → hasMark s.body = false

theorem mem_bodyLines {l b : Text} : l ∈ bodyLines b ↔ b ≠ [] ∧ l ∈ splitOn '\n' b := by
  unfold bodyLines
  split <;> simp_all

section Parts

variable {u : Option Text} {ns : List (Text × Text)}

theorem mem_ofParts {s : Section} : s ∈ (ofParts u ns).sections ↔
    (∃ b, u = some b ∧ s = { file := none, body := b }) ∨
      ∃ p ∈ ns, s = { file := some p.1, body := p.2 } := by
  cases u <;> simp [ofParts, eq_comm]

theorem named_tail_ofParts : ∀ s ∈ (ofParts u ns).sections.tail, s.file ≠ none := by
  intro s hs
  have hmem : s ∈ ns.map fun p => ({ file := some p.1, body := p.2 } : Section) := by
    cases u with
    | none => exact List.mem_of_mem_tail hs
    | some b => exact hs
  obtain ⟨p, -, rfl⟩ := List.mem_map.1 hmem
  exact Option.some_ne_none p.1

/-- What it takes for a file with parts to be regular. -/
theorem regular_ofParts : Regular (ofParts u ns) ↔ (u ≠ none ∨ ns ≠ []) ∧
    (∀ p ∈ ns, Markable p.1) ∧ (∀ l ∈ writtenBodies u ns, isMarker l = false) ∧
      u.map withoutReturns = u ∧ (∀ p ∈ ns, withoutReturns p.2 = p.2) ∧ u.map dropMark = u := by
  have hunnamed : ∀ {b}, u = some b → { file := none, body := b } ∈ (ofParts u ns).sections :=
    fun h => mem_ofParts.2 (Or.inl ⟨_, h, rfl⟩)
  have hnamed : ∀ {p}, p ∈ ns → { file := some p.1, body := p.2 } ∈ (ofParts u ns).sections :=
    fun h => mem_ofParts.2 (Or.inr ⟨_, h, rfl⟩)
  constructor
  · intro h
    refine ⟨?_, fun p hp => h.markable _ (hnamed hp) p.1 rfl, fun l hl => ?_, ?_, fun p hp =>
      withoutReturns_eq_self.2 (h.returns _ (hnamed hp)), ?_⟩
    · by_contra hn
      rw [not_or, not_not, not_not] at hn
      exact h.nonempty (by rw [hn.1, hn.2]; rfl)
    · rcases mem_writtenBodies.1 hl with ⟨b, hu, hl⟩ | ⟨p, hp, hl⟩
      · exact h.code _ (hunnamed hu) l hl
      · exact h.code _ (hnamed hp) l (mem_bodyLines.1 hl).2
    · cases u with
      | none => rfl
      | some b => exact congrArg some (withoutReturns_eq_self.2 (h.returns _ (hunnamed rfl)))
    · cases u with
      | none => rfl
      | some b => exact congrArg some (dropMark_of_not (h.mark _ rfl rfl))
  · rintro ⟨hne, hm, hb, hu, hns, hmark⟩
    refine ⟨?_, named_tail_ofParts, ?_, ?_, ?_, ?_⟩
    · rcases hne with hne | hne
      · obtain ⟨b, rfl⟩ := Option.ne_none_iff_exists'.1 hne
        exact List.ne_nil_of_mem (hunnamed rfl)
      · obtain ⟨p, r, rfl⟩ := List.exists_cons_of_ne_nil hne
        exact List.ne_nil_of_mem (hnamed List.mem_cons_self)
    · rintro s hs file hf
      rcases mem_ofParts.1 hs with ⟨b, -, rfl⟩ | ⟨p, hp, rfl⟩
      · exact absurd hf (by simp)
      · obtain rfl := Option.some.inj hf
        exact hm p hp
    · rintro s hs l hl
      rcases mem_ofParts.1 hs with ⟨b, hu, rfl⟩ | ⟨p, hp, rfl⟩
      · exact hb l (mem_writtenBodies.2 (Or.inl ⟨b, hu, hl⟩))
      · by_cases hp2 : p.2 = []
        · -- an empty body is not written, and its only line is no marker
          rw [show splitOn '\n' p.2 = [[]] by rw [hp2]; rfl, List.mem_singleton] at hl
          rw [hl]
          rfl
        · exact hb l (mem_writtenBodies.2 (Or.inr ⟨p, hp, mem_bodyLines.2 ⟨hp2, hl⟩⟩))
    · rintro s hs
      rcases mem_ofParts.1 hs with ⟨b, rfl, rfl⟩ | ⟨p, hp, rfl⟩
      · exact withoutReturns_eq_self.1 (Option.some.inj hu)
      · exact withoutReturns_eq_self.1 (hns p hp)
    · intro s hs hf
      have hmem := List.mem_of_mem_head? hs
      rcases mem_ofParts.1 hmem with ⟨b, rfl, rfl⟩ | ⟨p, -, rfl⟩
      · exact dropMark_eq_self.1 (Option.some.inj hmark)
      · exact absurd hf (Option.some_ne_none p.1)

-- A mark that was dropped is missed, since what is read back is no longer than what is written.
theorem dropMark_of_withoutReturns (h : (u.map dropMark).map withoutReturns = u) :
    u.map dropMark = u := by
  cases u with
  | none => rfl
  | some b =>
    have hb : withoutReturns (dropMark b) = b := Option.some.inj h
    refine congrArg some (dropMark_eq_self.2 ?_)
    cases hm : hasMark b with
    | false => rfl
    | true =>
      have hlen := length_withoutReturns_le (dropMark b)
      rw [hb] at hlen
      have := congrArg List.length (eq_mark_cons hm)
      rw [List.length_cons] at this
      omega

/-- A body with a marker among its lines is read back as more sections than there were. -/
theorem code_of_ofLines_writtenLines {v : Option Text} (hm : ∀ p ∈ ns, Markable p.1)
    (h : ofLines ((writtenLines v ns).map dropReturn) = ofParts u ns) :
    ∀ l ∈ writtenBodies v ns, isMarker l = false := by
  rw [ofLines_eq] at h
  have hlen := congrArg List.length (ofParts_injective h).2
  rw [List.length_map, countP_blocks, List.countP_map,
    List.countP_congr fun l _ => by rw [Function.comp_apply, isMarker_dropReturn],
    countP_writtenLines hm] at hlen
  have hzero : (writtenBodies v ns).countP isMarker = 0 := by omega
  exact fun l hl => by simpa using List.countP_eq_zero.1 hzero l hl

theorem parse_render_ofParts : parse (ofParts u ns).render =
    ofLines (lines (ofParts (u.map dropMark) ns).render) := by
  rw [parse, dropMark_render_ofParts]

/-- Whatever a file is read from, only its first section is unnamed, and the others have names that
a marker can hold. -/
theorem exists_parse_eq_ofParts (t : Text) :
    ∃ u ns, parse t = ofParts u ns ∧ ∀ p ∈ ns, Markable p.1 := by
  refine ⟨_, _, ofLines_eq _, fun p hp => ?_⟩
  obtain ⟨b, hb, rfl⟩ := List.mem_map.1 hp
  exact markable_of_mem_blocks (fun _ => not_mem_lines) hb

end Parts

/-- A file is read from its text as it was written exactly when it is regular. -/
theorem parse_render_iff_regular (f : MarkedFile) : parse f.render = f ↔ Regular f := by
  constructor
  · intro h
    obtain ⟨u, ns, hf, hm⟩ := exists_parse_eq_ofParts f.render
    obtain rfl := h.symm.trans hf
    have hne : u ≠ none ∨ ns ≠ [] := by
      by_contra hn
      rw [not_or, not_not, not_not] at hn
      obtain ⟨rfl, rfl⟩ := hn
      exact absurd h (by decide)
    have hne' : u.map dropMark ≠ none ∨ ns ≠ [] := by simpa using hne
    rw [parse_render_ofParts, lines_render_ofParts hne' hm] at h
    have hb := code_of_ofLines_writtenLines hm h
    rw [ofLines_writtenLines hm hb] at h
    obtain ⟨hu, hns⟩ := ofParts_injective h
    have hmark := dropMark_of_withoutReturns hu
    rw [hmark] at hu hb
    refine regular_ofParts.2 ⟨hne, hm, hb, hu, fun p hp => ?_, hmark⟩
    have hp := List.map_inj_left.1 (hns.trans (List.map_id ns).symm) p hp
    exact congrArg Prod.snd hp
  · intro h
    obtain ⟨u, ns, rfl⟩ := exists_ofParts h.named
    obtain ⟨hne, hm, hb, hu, hns, hmark⟩ := regular_ofParts.1 h
    rw [parse_render_ofParts, hmark, lines_render_ofParts hne hm, ofLines_writtenLines hm hb, hu,
      List.map_inj_left.2 fun p hp => by rw [hns p hp], List.map_id']

end Baselines.MarkedFile
