import Baselines.Proofs.Disk.DepthFirst
import Baselines.Proofs.Text.Parts

/-!
# The source of a test

An index has one source for each test that has any: the least by its place, names being compared one
after the other by their bytes. It does not depend on the order in which the disk lists its files.
-/

namespace Baselines

open Text

/-! ## 1. Disks that list the same -/

namespace Disk

variable {d d' : Disk}

-- What stands somewhere does not depend on the order of the nodes.
theorem node?_of_perm (h : d'.nodes.Perm d.nodes) (p : Place) : d'.node? p = d.node? p := by
  by_cases hp : p = []
  · rw [hp, node?_nil, node?_nil]
  · cases hn : d.node? p with
    | some n =>
      obtain ⟨m, hm, he⟩ := mem_of_node? hp (by rw [hn]; exact Option.some_ne_none n)
      have hm' : d.node? m.1 = some m.2 := node?_of_mem (by rw [he]; exact hp) hm
      rw [he, hn, Option.some.injEq] at hm'
      rw [hm', ← he]
      exact node?_of_mem (by rw [he]; exact hp) (h.mem_iff.2 hm)
    | none =>
      by_contra hne
      obtain ⟨m, hm, he⟩ := mem_of_node? hp hne
      have hm' : d.node? m.1 = some m.2 := node?_of_mem (by rw [he]; exact hp) (h.mem_iff.1 hm)
      rw [he, hn] at hm'
      exact absurd hm' (by simp)

theorem find_congr (hn : ∀ p, d'.node? p = d.node? p) (hs : d'.start = d.start) (path : Path) :
    d'.find path = d.find path := by
  have hf : d'.follow = d.follow := by
    funext p step
    unfold follow
    rw [hn]
  unfold find locate
  rw [hf, hs]
  simp only [hn]

end Disk

namespace SourceIndex

open Discovery

variable {d : Disk} {root : Path} {r p : Place} {test fileName : Text}

/-! ## 2. Names of sources -/

/-- A file name is that of a source of a test. -/
def IsSourceName (test fileName : Text) : Prop :=
  (∃ extension ∈ extensions, fileName = test ++ '.' :: extension) ∧ ¬ ".d.ts".toList <:+ fileName

theorem testOf?_eq_some_iff : testOf? fileName = some test ↔ IsSourceName test fileName := by
  have hplain : ∀ extension ∈ extensions, '.' ∉ extension := by decide
  unfold testOf? IsSourceName
  rw [← endsWith_eq_true_iff]
  constructor
  · intro h
    split at h
    · exact absurd h (by simp)
    · rename_i hdeclares
      refine ⟨?_, hdeclares⟩
      split at h
      · rename_i front extension hs
        split at h
        · rename_i hext
          obtain rfl := Option.some.inj h
          exact ⟨extension, by simpa using hext, (splitLast?_eq_some hs).1⟩
        · exact absurd h (by simp)
      · exact absurd h (by simp)
  · rintro ⟨⟨extension, hext, rfl⟩, hdeclares⟩
    rw [if_neg hdeclares, splitLast?_append test (hplain extension hext)]
    simp [hext]

/-- The file at the place `p` below a folder is a source of a test. -/
structure SourceAt (d : Disk) (r : Place) (test : Text) (p : Place) : Prop where
  file : ∃ bytes, d.node? (r ++ p) = some (.file bytes)
  name : ∃ last, p.getLast? = some last ∧ IsSourceName test last

/-- The file at `p` is the least of the sources of a test. -/
structure Canonical (d : Disk) (r : Place) (test : Text) (p : Place) : Prop
    extends SourceAt d r test p where
  least : ∀ q, SourceAt d r test q → p.map Encoding.utf8Encode ≤ q.map Encoding.utf8Encode

theorem SourceAt.ne_nil (h : SourceAt d r test p) : p ≠ [] := by
  obtain ⟨last, hlast, -⟩ := h.name
  rintro rfl
  exact absurd hlast (by simp)

theorem sourceAt_iff : SourceAt d r test p ↔
    p ∈ (d.filesBelow r).map (·.1) ∧ p.getLast?.bind testOf? = some test := by
  rw [Disk.mem_places_filesBelow, Option.bind_eq_some_iff]
  simp only [testOf?_eq_some_iff]
  exact ⟨fun h => ⟨⟨h.ne_nil, h.file⟩, h.name⟩, fun h => ⟨h.1.2, h.2⟩⟩

/-! ## 3. First sources -/

theorem get?_addFile (index : SourceIndex) (p : Place) (test : Text) :
    (addFile root index p).get? test = (index.get? test).or
      (if p.getLast?.bind testOf? = some test then some (Path.append root (Disk.relativePath p))
        else none) := by
  unfold addFile
  cases hp : p.getLast?.bind testOf? with
  | none => simp
  | some other =>
    by_cases ho : other = test
    · subst ho
      cases hg : index.get? other with
      | some path => simp [hg]
      | none => rw [if_pos rfl, Option.none_or]; simp [hg, Table.get?_insert_self]
    · simp only [Option.some.injEq, if_neg ho, Option.or_none]
      split
      · rfl
      · exact Table.get?_insert_ne (Ne.symm ho) _ _

/-- Of the files that are added the first one of a test is kept. -/
theorem get?_foldl_addFile (ps : List Place) (index : SourceIndex) (test : Text) :
    (ps.foldl (addFile root) index).get? test = (index.get? test).or
      ((ps.find? fun p => p.getLast?.bind testOf? = some test).map fun p =>
        Path.append root (Disk.relativePath p)) := by
  induction ps generalizing index with
  | nil => simp
  | cons p r ih =>
    rw [List.foldl_cons, ih, get?_addFile, Option.or_assoc, List.find?_cons]
    by_cases hp : p.getLast?.bind testOf? = some test
    · simp [hp]
    · simp [hp]

-- In a sorted list the first of a kind is the least.
theorem find?_least {ps : List Place} {kind : Place → Bool}
    (hs : ps.Pairwise fun p q => Place.before p q = true) :
    ps.find? kind = some p ↔
      (p ∈ ps ∧ kind p = true) ∧ ∀ q ∈ ps, kind q = true → Place.before p q = true := by
  constructor
  · intro h
    obtain ⟨hkind, front, rest, rfl, hfront⟩ := List.find?_eq_some_iff_append.1 h
    refine ⟨⟨List.mem_of_find?_eq_some h, hkind⟩, fun q hq hqk => ?_⟩
    rcases List.mem_append.1 hq with hq | hq
    · exact absurd hqk (by simpa using hfront q hq)
    · rcases List.mem_cons.1 hq with rfl | hq
      · exact (Place.before_total q q).elim id id
      · exact (List.pairwise_cons.1 (List.pairwise_append.1 hs).2.1).1 q hq
  · rintro ⟨⟨hp, hkind⟩, hleast⟩
    obtain ⟨q, hq⟩ := Option.isSome_iff_exists.1 (List.find?_isSome.2 ⟨p, hp, hkind⟩)
    rw [hq]
    -- the first one is no later than `p`, and `p` is no later than the first one
    obtain ⟨hqk, front, rest, rfl, hfront⟩ := List.find?_eq_some_iff_append.1 hq
    have hpq := hleast q (List.mem_of_find?_eq_some hq) hqk
    refine congrArg some (Place.before_antisymm ?_ hpq)
    rcases List.mem_append.1 hp with hp | hp
    · exact absurd hkind (by simpa using hfront p hp)
    · rcases List.mem_cons.1 hp with rfl | hp
      · exact hpq
      · exact (List.pairwise_cons.1 (List.pairwise_append.1 hs).2.1).1 p hp

/-! ## 4. Indexes -/

theorem build_ok (hr : d.find root = .ok (r, .folder)) :
    build d root = .ok (((d.filesBelow r).map (·.1)).foldl (addFile root) []) := by
  rw [build_eq]
  unfold filesOf
  rw [hr]
  rfl

/-- An index gives a test the least of its sources. -/
theorem get?_build_iff {index : SourceIndex} (hr : d.find root = .ok (r, .folder))
    (h : build d root = .ok index) {path : Path} : index.get? test = some path ↔
      ∃ p, Canonical d r test p ∧ path = Path.append root (Disk.relativePath p) := by
  obtain rfl := Except.ok.inj ((build_ok hr).symm.trans h)
  rw [get?_foldl_addFile]
  show Option.or none _ = _ ↔ _
  rw [Option.none_or, Option.map_eq_some_iff]
  refine exists_congr fun p => and_congr ?_ eq_comm
  rw [find?_least (Disk.sorted_filesBelow d r)]
  simp only [decide_eq_true_eq, ← sourceAt_iff]
  constructor
  · rintro ⟨hp, hleast⟩
    refine ⟨hp, fun q hq => ?_⟩
    have hq' := sourceAt_iff.1 hq
    exact Place.before_iff_bytes.1 (hleast q hq'.1 hq'.2)
  · rintro ⟨hp, hleast⟩
    exact ⟨hp, fun q hq hk => Place.before_iff_bytes.2 (hleast q (sourceAt_iff.2 ⟨hq, hk⟩))⟩

theorem exists_get?_build_iff {index : SourceIndex} (hr : d.find root = .ok (r, .folder))
    (h : build d root = .ok index) :
    (∃ path, index.get? test = some path) ↔ ∃ p, SourceAt d r test p := by
  obtain rfl := Except.ok.inj ((build_ok hr).symm.trans h)
  rw [get?_foldl_addFile]
  show (∃ path, Option.or none _ = some path) ↔ _
  rw [Option.none_or, ← Option.isSome_iff_exists, Option.isSome_map, List.find?_isSome]
  simp only [decide_eq_true_eq, ← sourceAt_iff]

theorem sorted_build {index : SourceIndex} (hr : d.find root = .ok (r, .folder))
    (h : build d root = .ok index) : Table.Sorted index := by
  obtain rfl := Except.ok.inj ((build_ok hr).symm.trans h)
  exact sorted_foldl_addFile _ Table.sorted_nil

/-- Below a folder an index has an entry for a test exactly when some file at any depth is a source
of it, and the path is that of the least such file by the bytes of its names, one after the other. Its
entries are in strict order of the bytes of the tests, and each is what is looked up. A walk that goes
into folders at once, by the names in them, and keeps the first source of each test builds the index,
and so it is the same in whatever order the disk lists its files. -/
theorem build_canonical (hr : d.find root = .ok (r, .folder)) : ∃ index,
    build d root = .ok index ∧
      (∀ test, (∃ path, index.get? test = some path) ↔ ∃ p, SourceAt d r test p) ∧
      (∀ test path, index.get? test = some path ↔
        ∃ p, Canonical d r test p ∧ path = Path.append root (Disk.relativePath p)) ∧
      (index.Pairwise fun a b => Encoding.utf8Encode a.1 < Encoding.utf8Encode b.1) ∧
      (∀ test path, (test, path) ∈ index ↔ index.get? test = some path) ∧
      (Disk.Grounded d → ∀ depth, (∀ n ∈ d.nodes, n.1.length ≤ r.length + depth) →
        index = (d.depthFirst depth r).foldl (addFile root) []) ∧
      ∀ d' : Disk, d'.nodes.Perm d.nodes → d'.start = d.start → build d' root = .ok index := by
  have hb := build_ok hr
  have hsorted := sorted_build hr hb
  refine ⟨_, hb, fun test => exists_get?_build_iff hr hb, fun test path => get?_build_iff hr hb,
    hsorted.imp Encoding.utf8Encode_lt_of_precedes,
    fun test path => hsorted.get?_eq_some_iff.symm, ?_, ?_⟩
  · intro hg depth hdepth
    rw [Disk.depthFirst_eq hg hdepth]
  · intro d' hperm hstart
    have hnode := Disk.node?_of_perm hperm
    have hr' : d'.find root = .ok (r, .folder) := by rw [Disk.find_congr hnode hstart, hr]
    have hplaces : (d'.filesBelow r).map (·.1) = (d.filesBelow r).map (·.1) := by
      have hall : ((d'.filesBelow r).map (·.1)).filter (fun _ => true) =
          ((d.filesBelow r).map (·.1)).filter fun _ => true :=
        Disk.filter_filesBelow fun p _ _ => by rw [hnode]
      simpa using hall
    rw [build_ok hr', hplaces]

/-- A disk with two sources of one test, in folders whose names begin the same. -/
def twinDisk : Disk where
  nodes :=
    [(["s".toList], .folder), (["s".toList, "a.b".toList], .folder),
      (["s".toList, "a".toList], .folder),
      (["s".toList, "a".toList, "t.tsx".toList], .file []),
      (["s".toList, "a.b".toList, "t.ts".toList], .file []),
      (["s".toList, "u.d.ts".toList], .file [])]
  distinct := by decide
  named := by decide

def twinIndex : SourceIndex := [("t".toList, "/s/a/t.tsx".toList)]

-- A dot comes before a slash, but the name of the first folder comes before that of the second.
theorem build_canonical_twin :
    twinDisk.find "/s" = .ok (["s".toList], .folder) ∧ build twinDisk "/s" = .ok twinIndex ∧
      (∃ p, Canonical twinDisk ["s".toList] "t" p ∧
        ("/s/a/t.tsx" : Path) = Path.append "/s" (Disk.relativePath p)) ∧
      (¬ ∃ p, SourceAt twinDisk ["s".toList] "u.d" p) ∧
      Disk.Grounded twinDisk ∧
      twinIndex = (twinDisk.depthFirst 2 ["s".toList]).foldl (addFile "/s") [] := by
  have hr : twinDisk.find "/s" = .ok (["s".toList], .folder) := by decide +kernel
  have hbuild : build twinDisk "/s" = .ok twinIndex := by
    rw [build_of_sorted hr (by decide +kernel)]
    decide +kernel
  have hg : Disk.Grounded twinDisk := Disk.grounded_of_nodes (by decide +kernel)
  obtain ⟨index, hindex, hentry, hpath, -, -, hwalk, -⟩ := build_canonical hr
  obtain rfl := Except.ok.inj (hbuild.symm.trans hindex)
  refine ⟨hr, hbuild, (hpath "t" "/s/a/t.tsx").1 (by decide +kernel), fun h => ?_, hg,
    hwalk hg 2 (by decide)⟩
  obtain ⟨path, h⟩ := (hentry "u.d").2 h
  exact absurd h (by simp [twinIndex, Table.get?])

end SourceIndex

end Baselines
