import Baselines.Discovery
import Baselines.Proofs.Disk.Frame
import Baselines.Proofs.Name.Parse
import Baselines.Proofs.Table

/-!
# What a discovery finds

Every baseline that is found stands at a place of its own, whose last name is read as its name. The
sources stand elsewhere, and writing baselines again changes nothing of what is found.
-/

namespace Baselines

open Text

/-! ## 1. Files below a folder -/

namespace Disk

variable {d : Disk} {r : Place}

theorem mem_filesUnder {ns : List (Place × Node)} {f : Place × Bytes} (h : f ∈ filesUnder r ns) :
    f.1 ≠ [] ∧ (r ++ f.1, Node.file f.2) ∈ ns := by
  induction ns with
  | nil => exact absurd h List.not_mem_nil
  | cons n s ih =>
    obtain ⟨q, n⟩ := n
    have tail : f ∈ filesUnder r s → f.1 ≠ [] ∧ (r ++ f.1, Node.file f.2) ∈ (q, n) :: s := fun hs =>
      ⟨(ih hs).1, List.mem_cons_of_mem _ (ih hs).2⟩
    cases n with
    | folder => exact tail h
    | file b =>
      rw [filesUnder] at h
      split at h
      · rename_i hc
        rcases List.mem_cons.1 h with rfl | h
        · obtain ⟨p, rfl⟩ := List.isPrefixOf_iff_prefix.1 hc.1
          have hp : p ≠ [] := by
            intro he
            simp [he] at hc
          rw [List.drop_left]
          exact ⟨hp, List.mem_cons_self⟩
        · exact tail h
      · exact tail h

-- Files are found below a folder at places that are given by names.
theorem mem_filesBelow {f : Place × Bytes} (h : f ∈ d.filesBelow r) :
    f.1 ≠ [] ∧ f.1.all Path.isName = true := by
  have hm : f ∈ filesUnder r d.nodes := (List.mergeSort_perm _ _).mem_iff.1 h
  obtain ⟨hne, hn⟩ := mem_filesUnder hm
  have hnamed := d.named _ hn
  rw [List.all_append, Bool.and_eq_true] at hnamed
  exact ⟨hne, hnamed.2⟩

theorem mem_filesUnder_of_mem {ns : List (Place × Node)} {p : Place} {b : Bytes} (hp : p ≠ [])
    (h : (r ++ p, Node.file b) ∈ ns) : (p, b) ∈ filesUnder r ns := by
  induction ns with
  | nil => exact absurd h List.not_mem_nil
  | cons n s ih =>
    have tail : (r ++ p, Node.file b) ∈ s → (p, b) ∈ filesUnder r (n :: s) := by
      intro hs
      obtain ⟨q, n⟩ := n
      cases n with
      | folder => exact ih hs
      | file c =>
        rw [filesUnder]
        split
        · exact List.mem_cons_of_mem _ (ih hs)
        · exact ih hs
    rcases List.mem_cons.1 h with rfl | hs
    · have hlen := List.length_pos_of_ne_nil hp
      have hbelow : r.isPrefixOf (r ++ p) = true ∧ r.length < (r ++ p).length := by
        rw [List.isPrefixOf_iff_prefix, List.length_append]
        exact ⟨List.prefix_append r p, by omega⟩
      rw [filesUnder, if_pos hbelow, List.drop_left]
      exact List.mem_cons_self
    · exact tail hs

/-- Every file below a folder is found there. -/
theorem mem_filesBelow_of_node? {p : Place} {b : Bytes} (hp : p ≠ [])
    (h : d.node? (r ++ p) = some (.file b)) : (p, b) ∈ d.filesBelow r := by
  have hm : (r ++ p, Node.file b) ∈ d.nodes := by
    unfold node? at h
    rw [if_neg (by simp [hp]), Option.map_eq_some_iff] at h
    obtain ⟨n, hn, hfile⟩ := h
    have hplace : n.1 = r ++ p := by simpa using List.find?_some hn
    rw [← hplace, ← hfile]
    exact List.mem_of_find?_eq_some hn
  exact (List.mergeSort_perm _ _).mem_iff.2 (mem_filesUnder_of_mem hp hm)

theorem node?_of_mem {p : Place} {n : Node} (hp : p ≠ []) (h : (p, n) ∈ d.nodes) :
    d.node? p = some n := by
  obtain ⟨m, hm⟩ : ∃ m, d.nodes.find? (·.1 = p) = some m := by
    rw [← Option.isSome_iff_exists, List.find?_isSome]
    exact ⟨(p, n), h, by simp⟩
  have hplace : m.1 = p := by simpa using List.find?_some hm
  have he : m = (p, n) :=
    List.inj_on_of_nodup_map d.distinct (List.mem_of_find?_eq_some hm) h hplace
  unfold node?
  rw [if_neg hp, hm, he]
  rfl

theorem node?_filesBelow {f : Place × Bytes} (h : f ∈ d.filesBelow r) :
    d.node? (r ++ f.1) = some (.file f.2) := by
  have hm : f ∈ filesUnder r d.nodes := (List.mergeSort_perm _ _).mem_iff.1 h
  obtain ⟨hne, hn⟩ := mem_filesUnder hm
  exact node?_of_mem (by simp [hne]) hn

-- No place is found twice.
theorem nodup_filesBelow (d : Disk) (r : Place) : ((d.filesBelow r).map (·.1)).Nodup := by
  -- the nodes are distinct, and a prefix that all places share keeps them apart when it is dropped
  have key : ∀ ns : List (Place × Node), (ns.map (·.1)).Nodup →
      ((filesUnder r ns).map (·.1)).Nodup := by
    intro ns
    induction ns with
    | nil => simp [filesUnder]
    | cons n s ih =>
      obtain ⟨q, n⟩ := n
      intro hd
      rw [List.map_cons, List.nodup_cons] at hd
      cases n with
      | folder => exact ih hd.2
      | file b =>
        rw [filesUnder]
        split
        · rename_i hc
          rw [List.map_cons, List.nodup_cons]
          refine ⟨fun hm => ?_, ih hd.2⟩
          obtain ⟨f, hf, he⟩ := List.mem_map.1 hm
          obtain ⟨p, rfl⟩ := List.isPrefixOf_iff_prefix.1 hc.1
          have he : f.1 = p := by simpa using he
          exact hd.1 (List.mem_map.2 ⟨_, (mem_filesUnder hf).2, by rw [he]⟩)
        · exact ih hd.2
  have hp : (d.filesBelow r).Perm (filesUnder r d.nodes) := List.mergeSort_perm _ _
  exact ((hp.map (·.1)).nodup_iff).2 (key _ d.distinct)

end Disk

namespace Discovery

variable {d d' : Disk} {root : Path}

theorem filesOf_ok {files : List (Place × Bytes)} (h : filesOf d root = .ok files) :
    ∃ r, d.locate root = .ok r ∧ files = d.filesBelow r := by
  unfold filesOf at h
  split at h
  · rename_i r hf
    exact ⟨r, (Disk.find_eq_ok.1 hf).1, (Except.ok.inj h).symm⟩
  · exact absurd h (by simp)

-- Files that are listed in order are found as they are.
theorem filesOf_of_sorted {r : Place} (hr : d.find root = .ok (r, .folder))
    (hs : (Disk.filesUnder r d.nodes).Pairwise fun a b => Place.before a.1 b.1 = true) :
    filesOf d root = .ok (Disk.filesUnder r d.nodes) := by
  unfold filesOf
  rw [hr]
  show Except.ok (d.filesBelow r) = _
  unfold Disk.filesBelow
  rw [List.mergeSort_of_pairwise hs]

-- The places below a folder do not depend on what the files hold.
theorem filesOf_map_fst {S : Place → Prop} (h : Disk.Rewritten S d d') (root : Path) :
    (filesOf d' root).map (List.map (·.1)) = (filesOf d root).map (List.map (·.1)) := by
  unfold filesOf
  rcases h.find_cases root with ⟨r, h1, h2⟩ | ⟨r, a, b, h1, h2⟩ | ⟨e, h1, h2⟩
  · simp only [h1, h2]
    exact congrArg Except.ok (h.filesBelow_map_fst r)
  · simp only [h1, h2]
  · simp only [h1, h2]

/-! ## 2. Baselines -/

/-- The baseline `f` was found at the place `p` below the root. -/
structure FoundAt (root : Path) (p : Place) (f : Found) : Prop where
  nonempty : p ≠ []
  named : p.all Path.isName = true
  path : f.path = Path.append root (Disk.relativePath p)
  name : ∃ last, p.getLast? = some last ∧ Name.parse last = .ok f.name

theorem found?_ok {selection : Selection} {p : Place} {f : Found} (hp : p ≠ [])
    (hn : p.all Path.isName = true) (h : found? root selection p = some f) : FoundAt root p f := by
  unfold found? at h
  cases hl : p.getLast? with
  | none => simp [hl] at h
  | some last =>
    cases hr : Name.parse last with
    | error e => simp [hl, hr] at h
    | ok name =>
      simp only [hl, hr, Option.map_some] at h
      split at h
      · obtain rfl := Option.some.inj h
        exact ⟨hp, hn, rfl, last, hl, hr⟩
      · exact absurd h (by simp)

theorem found?_relative {selection : Selection} {p : Place} {f : Found}
    (h : found? root selection p = some f) :
    f.relative = Selection.slashed (Disk.relativePath p) := by
  unfold found? at h
  split at h
  · simp only at h
    split at h
    · rw [← Option.some.inj h]
    · exact absurd h (by simp)
  · exact absurd h (by simp)

def isBaseline (p : Place) : Prop := ∃ last n, p.getLast? = some last ∧ Name.parse last = .ok n

namespace FoundAt

variable {p : Place} {f : Found}

/-- The path of a baseline carries the name it was found by. -/
theorem ofPath (h : FoundAt root p f) : Name.ofPath f.path = .ok f.name := by
  obtain ⟨last, hl, hn⟩ := h.name
  unfold Name.ofPath
  rw [h.path, Path.fileName?_append_relativePath root h.nonempty h.named, hl]
  exact hn

theorem isBaseline (h : FoundAt root p f) {q : Place} (hq : d.locate f.path = .ok q) :
    isBaseline q := by
  obtain ⟨last, hl, hn⟩ := h.name
  rw [h.path] at hq
  obtain ⟨r, -, rfl⟩ := Disk.locate_append_ok h.nonempty h.named hq
  exact ⟨last, f.name, by rw [List.getLast?_append_of_ne_nil r h.nonempty, hl], hn⟩

end FoundAt

theorem baselines_eq (d : Disk) (root : Path) (selection : Selection) :
    baselines d root selection = ((filesOf d root).map (List.map (·.1))).map fun ps =>
      (ps.filterMap (found? root selection)).mergeSort fun a b => Text.before a.relative b.relative := by
  unfold baselines
  simp only [bind, Except.bind]
  cases filesOf d root with
  | error e => rfl
  | ok files =>
    simp only [Except.map, List.filterMap_map]
    rfl

theorem baselines_of_sorted {selection : Selection} {r : Place} {found : List Found}
    (hr : d.find root = .ok (r, .folder))
    (hs : (Disk.filesUnder r d.nodes).Pairwise fun a b => Place.before a.1 b.1 = true)
    (hf : (Disk.filesUnder r d.nodes).filterMap (fun f => found? root selection f.1) = found)
    (ho : found.Pairwise fun a b => Text.before a.relative b.relative = true) :
    baselines d root selection = .ok found := by
  unfold baselines
  rw [filesOf_of_sorted hr hs]
  show Except.ok (List.mergeSort _ _) = _
  rw [hf, List.mergeSort_of_pairwise ho]

theorem baselines_rewritten {S : Place → Prop} (h : Disk.Rewritten S d d') (root : Path)
    (selection : Selection) : baselines d' root selection = baselines d root selection := by
  rw [baselines_eq, baselines_eq, filesOf_map_fst h]

theorem baselines_perm {selection : Selection} {found : List Found}
    (h : baselines d root selection = .ok found) : ∃ r, d.locate root = .ok r ∧
      found.Perm (((d.filesBelow r).map (·.1)).filterMap (found? root selection)) := by
  rw [baselines_eq] at h
  cases hf : filesOf d root with
  | error e => simp [hf, Except.map] at h
  | ok files =>
    obtain ⟨r, hr, rfl⟩ := filesOf_ok hf
    simp only [hf, Except.map, Except.ok.injEq] at h
    exact ⟨r, hr, by rw [← h]; exact List.mergeSort_perm _ _⟩

-- A baseline that is found comes from one of the files below the root.
theorem exists_found? {selection : Selection} {found : List Found}
    (h : baselines d root selection = .ok found) {f : Found} (hf : f ∈ found) :
    ∃ r, d.locate root = .ok r ∧ ∃ k ∈ d.filesBelow r, found? root selection k.1 = some f := by
  obtain ⟨r, hr, hp⟩ := baselines_perm h
  obtain ⟨p, hm, he⟩ := List.mem_filterMap.1 (hp.mem_iff.1 hf)
  obtain ⟨k, hk, rfl⟩ := List.mem_map.1 hm
  exact ⟨r, hr, k, hk, he⟩

theorem exists_foundAt {selection : Selection} {found : List Found}
    (h : baselines d root selection = .ok found) {f : Found} (hf : f ∈ found) :
    ∃ p, FoundAt root p f := by
  obtain ⟨r, -, k, hk, he⟩ := exists_found? h hf
  obtain ⟨hne, hn⟩ := Disk.mem_filesBelow hk
  exact ⟨k.1, found?_ok hne hn he⟩

-- Without conditions every baseline is covered.
theorem found?_all (root : Path) {p : Place} {last : Text} {n : Name} (hl : p.getLast? = some last)
    (hn : Name.parse last = .ok n) : ∃ f, found? root {} p = some f := by
  unfold found?
  rw [hl]
  simp only [Option.map_some, hn]
  exact ⟨_, if_pos rfl⟩

/-- The file that a path leads to is among the baselines that were found below a folder. -/
def Lists (d : Disk) (root : Path) (found : List Found) (path : Path) : Prop :=
  ∃ f ∈ found, ∃ r p, FoundAt root p f ∧ d.locate root = .ok r ∧ d.locate path = .ok (r ++ p)

/-- A file is found below a folder when it stands below it and its name is read as the name of a
baseline. -/
theorem lists_iff {r q : Place} {b : Bytes} {path : Path} (hr : d.find root = .ok (r, .folder))
    (hq : d.find path = .ok (q, .file b)) : ∃ found, baselines d root {} = .ok found ∧
      (Lists d root found path ↔ r <+: q ∧ isBaseline q) := by
  obtain ⟨hroot, hfolder⟩ := Disk.find_eq_ok.1 hr
  obtain ⟨hpath, hfile⟩ := Disk.find_eq_ok.1 hq
  obtain ⟨found, hfound⟩ : ∃ found, baselines d root {} = .ok found := by
    unfold baselines filesOf
    rw [hr]
    exact ⟨_, rfl⟩
  refine ⟨found, hfound, ?_⟩
  constructor
  · rintro ⟨f, -, k, p, hf, hk, hp⟩
    obtain rfl := Except.ok.inj (hroot.symm.trans hk)
    obtain rfl := Except.ok.inj (hpath.symm.trans hp)
    obtain ⟨last, hl, hn⟩ := hf.name
    have hlast : (r ++ p).getLast? = some last := by
      rw [List.getLast?_append_of_ne_nil r hf.nonempty, hl]
    exact ⟨List.prefix_append r p, last, f.name, hlast, hn⟩
  · rintro ⟨⟨p, rfl⟩, last, n, hl, hn⟩
    have hne : p ≠ [] := by
      rintro rfl
      rw [List.append_nil, hfolder] at hfile
      exact absurd hfile (by simp)
    rw [List.getLast?_append_of_ne_nil r hne] at hl
    obtain ⟨f, hf⟩ := found?_all root hl hn
    have hm := Disk.mem_filesBelow_of_node? hne hfile
    obtain ⟨k, hk, hperm⟩ := baselines_perm hfound
    obtain rfl := Except.ok.inj (hroot.symm.trans hk)
    have hin : f ∈ found :=
      hperm.mem_iff.2 (List.mem_filterMap.2 ⟨p, List.mem_map.2 ⟨(p, b), hm, rfl⟩, hf⟩)
    exact ⟨f, hin, r, p, found?_ok hne (Disk.mem_filesBelow hm).2 hf, hroot, hpath⟩

/-- The paths of two baselines do not lead to one place. -/
def Apart (d : Disk) (f g : Found) : Prop :=
  ∀ q, d.locate f.path = .ok q → d.locate g.path ≠ .ok q

theorem Apart.symm {f g : Found} (h : Apart d f g) : Apart d g f := fun q hg hf => h q hf hg

/-- No two baselines that are found stand at one place. -/
theorem pairwise_baselines {selection : Selection} {found : List Found}
    (h : baselines d root selection = .ok found) : found.Pairwise (Apart d) := by
  obtain ⟨r, hr, hp⟩ := baselines_perm h
  rw [hp.pairwise_iff Apart.symm, List.pairwise_filterMap]
  apply List.Pairwise.imp_of_mem _ (Disk.nodup_filesBelow d r)
  intro p k hpm hkm hne f hf g hg q hfq hgq
  obtain ⟨a, ha, rfl⟩ := List.mem_map.1 hpm
  obtain ⟨b, hb, rfl⟩ := List.mem_map.1 hkm
  have hfa := found?_ok (Disk.mem_filesBelow ha).1 (Disk.mem_filesBelow ha).2 hf
  have hgb := found?_ok (Disk.mem_filesBelow hb).1 (Disk.mem_filesBelow hb).2 hg
  rw [hfa.path] at hfq
  rw [hgb.path] at hgq
  have h1 := Disk.locate_append hr hfa.nonempty hfa.named hfq
  have h2 := Disk.locate_append hr hgb.nonempty hgb.named hgq
  exact hne (List.append_cancel_left (h1.symm.trans h2))

/-- No name of a file below the folder, or of a folder on the way there, has a backslash. -/
def PlainNames (d : Disk) (root : Path) : Prop :=
  ∀ r, d.locate root = .ok r → ∀ file ∈ d.filesBelow r, ∀ name ∈ file.1, '\\' ∉ name

theorem PlainNames.of_nodes (h : ∀ n ∈ d.nodes, ∀ name ∈ n.1, '\\' ∉ name) (root : Path) :
    PlainNames d root := by
  intro r _ file hf name hn
  have hm := (List.mergeSort_perm _ _).mem_iff.1 hf
  exact h _ (Disk.mem_filesUnder hm).2 name (List.mem_append_right r hn)

theorem slashed_relativePath {p : Place} (h : ∀ name ∈ p, '\\' ∉ name) :
    Selection.slashed (Disk.relativePath p) = Disk.relativePath p := by
  unfold Selection.slashed
  conv_rhs => rw [← List.map_id (Disk.relativePath p)]
  apply List.map_congr_left
  intro c hc
  refine if_neg ?_
  rintro rfl
  rcases mem_of_mem_join hc with hslash | ⟨name, hname, hm⟩
  · exact absurd hslash (by decide)
  · exact h name hname hm

/-- Where no backslash is read as a slash, the path below the folder tells baselines apart. -/
theorem eq_of_relative {selection : Selection} {found : List Found}
    (h : baselines d root selection = .ok found) (hb : PlainNames d root) {f g : Found}
    (hf : f ∈ found) (hg : g ∈ found) (he : f.relative = g.relative) : f = g := by
  obtain ⟨r, hr, a, ha, hfa⟩ := exists_found? h hf
  obtain ⟨k, hk, b, hb', hgb⟩ := exists_found? h hg
  obtain rfl := Except.ok.inj (hr.symm.trans hk)
  have hpath : Disk.relativePath a.1 = Disk.relativePath b.1 := by
    rw [← slashed_relativePath (hb r hr a ha), ← slashed_relativePath (hb r hr b hb'),
      ← found?_relative hfa, ← found?_relative hgb, he]
  obtain ⟨ha0, han⟩ := Disk.mem_filesBelow ha
  obtain ⟨hb0, hbn⟩ := Disk.mem_filesBelow hb'
  have hab : a.1 = b.1 := by
    rw [← Path.splitOn_relativePath ha0 han, hpath, Path.splitOn_relativePath hb0 hbn]
  rw [hab, hgb, Option.some.injEq] at hfa
  exact hfa.symm

end Discovery

/-! ## 3. Sources -/

namespace SourceIndex

open Discovery

variable {d d' : Disk} {root : Path}

theorem testOf?_eq_some {fileName test : Text} (h : testOf? fileName = some test) :
    ∃ extension, splitLast? '.' fileName = some (test, extension) ∧ extension ∈ extensions := by
  unfold testOf? at h
  split at h
  · exact absurd h (by simp)
  · cases hs : splitLast? '.' fileName with
    | none => simp [hs] at h
    | some p =>
      obtain ⟨front, extension⟩ := p
      simp only [hs] at h
      split at h
      · rename_i hc
        obtain rfl := Option.some.inj h
        exact ⟨extension, rfl, by simpa using hc⟩
      · exact absurd h (by simp)

/-- No name ends like a source and like a baseline. -/
theorem not_parse {fileName front extension : Text} {n : Name}
    (hs : splitLast? '.' fileName = some (front, extension)) (he : extension ∈ extensions) :
    Name.parse fileName ≠ .ok n := by
  intro h
  obtain ⟨stem, _, _, ht, hn, -⟩ := Name.parse_eq_ok.1 h
  rw [hs, Option.some.injEq, Prod.mk.injEq] at ht
  rw [← ht.2] at hn
  have hdisjoint : ∀ x ∈ extensions, x ∉ Name.extensions := by decide
  exact hdisjoint extension he hn

theorem mem_addFile {index : SourceIndex} {p : Place} {entry : Text × Path}
    (h : entry ∈ addFile root index p) : entry ∈ index ∨
      (entry.2 = Path.append root (Disk.relativePath p) ∧
        p.getLast?.bind testOf? = some entry.1) := by
  unfold addFile at h
  cases hp : p.getLast?.bind testOf? with
  | none =>
    simp only [hp] at h
    exact Or.inl h
  | some t =>
    simp only [hp] at h
    split at h
    · exact Or.inl h
    · rcases Table.mem_insert h with rfl | h
      · exact Or.inr ⟨rfl, rfl⟩
      · exact Or.inl h

theorem sorted_addFile {index : SourceIndex} (h : Table.Sorted index) (p : Place) :
    Table.Sorted (addFile root index p) := by
  unfold addFile
  split
  · exact h
  · split
    · exact h
    · exact Table.sorted_insert h _ _

theorem sorted_foldl_addFile (ps : List Place) {index : SourceIndex} (h : Table.Sorted index) :
    Table.Sorted (ps.foldl (addFile root) index) := by
  induction ps generalizing index with
  | nil => exact h
  | cons p r ih => exact ih (sorted_addFile h p)

theorem build_eq (d : Disk) (root : Path) :
    build d root = ((filesOf d root).map (List.map (·.1))).map fun ps =>
      ps.foldl (addFile root) [] := by
  unfold build
  simp only [bind, Except.bind]
  cases filesOf d root with
  | error e => rfl
  | ok files =>
    simp only [Except.map, List.foldl_map]
    rfl

theorem build_of_sorted {r : Place} (hr : d.find root = .ok (r, .folder))
    (hs : (Disk.filesUnder r d.nodes).Pairwise fun a b => Place.before a.1 b.1 = true) :
    build d root = .ok ((Disk.filesUnder r d.nodes).foldl
      (fun index f => addFile root index f.1) []) := by
  unfold build
  rw [filesOf_of_sorted hr hs]
  rfl

theorem build_rewritten {S : Place → Prop} (h : Disk.Rewritten S d d') (root : Path) :
    build d' root = build d root := by
  rw [build_eq, build_eq, filesOf_map_fst h]

-- No test has two sources.
theorem nodup_build {index : SourceIndex} (h : build d root = .ok index) : index.keys.Nodup := by
  rw [build_eq] at h
  cases hf : filesOf d root with
  | error e => simp [hf, Except.map] at h
  | ok files =>
    simp only [hf, Except.map, Except.ok.injEq] at h
    rw [← h]
    exact (sorted_foldl_addFile _ Table.sorted_nil).nodup_keys

/-- The sources of an index are files below its folder, with the names of their tests. -/
theorem mem_build {index : SourceIndex} (h : build d root = .ok index) {entry : Text × Path}
    (he : entry ∈ index) : ∃ r, d.locate root = .ok r ∧ ∃ f ∈ d.filesBelow r,
      entry.2 = Path.append root (Disk.relativePath f.1) ∧
        f.1.getLast?.bind testOf? = some entry.1 := by
  -- an entry of the finished index was there at the start, or one of the files has added it
  have key : ∀ (ps : List Place) (start : SourceIndex), entry ∈ ps.foldl (addFile root) start →
      entry ∈ start ∨ ∃ p ∈ ps, entry.2 = Path.append root (Disk.relativePath p) ∧
        p.getLast?.bind testOf? = some entry.1 := by
    intro ps
    induction ps with
    | nil => exact fun start hs => Or.inl hs
    | cons p r ih =>
      intro start hs
      rcases ih _ hs with hs | ⟨k, hk, hk'⟩
      · rcases mem_addFile hs with hs | hs
        · exact Or.inl hs
        · exact Or.inr ⟨p, List.mem_cons_self, hs⟩
      · exact Or.inr ⟨k, List.mem_cons_of_mem p hk, hk'⟩
  rw [build_eq] at h
  cases hf : filesOf d root with
  | error e => simp [hf, Except.map] at h
  | ok files =>
    obtain ⟨r, hr, rfl⟩ := filesOf_ok hf
    simp only [hf, Except.map, Except.ok.injEq] at h
    rw [← h] at he
    rcases key _ [] he with hs | ⟨p, hp, hpath, hlast⟩
    · exact absurd hs List.not_mem_nil
    · obtain ⟨k, hk, rfl⟩ := List.mem_map.1 hp
      exact ⟨r, hr, k, hk, hpath, hlast⟩

theorem get?_build {index : SourceIndex} (h : build d root = .ok index) {test : Text} {path : Path}
    (ht : index.get? test = some path) : ∃ p, p ≠ [] ∧ p.all Path.isName = true ∧
      path = Path.append root (Disk.relativePath p) ∧ p.getLast?.bind testOf? = some test := by
  obtain ⟨r, -, f, hf, hpath, hlast⟩ := mem_build h (Table.mem_of_get? ht)
  obtain ⟨hne, hn⟩ := Disk.mem_filesBelow hf
  exact ⟨f.1, hne, hn, hpath, hlast⟩

/-- The name of a test has no slash. -/
theorem slash_not_mem {index : SourceIndex} (h : build d root = .ok index) {entry : Text × Path}
    (he : entry ∈ index) : '/' ∉ entry.1 := by
  obtain ⟨r, -, f, hf, -, htest⟩ := mem_build h he
  obtain ⟨last, hlast, htest⟩ := Option.bind_eq_some_iff.1 htest
  obtain ⟨extension, hs, -⟩ := testOf?_eq_some htest
  have hname := List.all_eq_true.1 (Disk.mem_filesBelow hf).2 last (List.mem_of_getLast? hlast)
  intro hm
  apply Path.not_mem_of_isName hname
  rw [(splitLast?_eq_some hs).1]
  exact List.mem_append_left _ hm

end SourceIndex

end Baselines
