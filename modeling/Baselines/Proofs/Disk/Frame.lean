import Baselines.Proofs.Disk.Places
import Baselines.Trouble

/-!
# What a write changes

A file that is written again changes nothing but what stands at its own place: every path leads
where it led, and every walk finds the same files.
-/

namespace Baselines

/-- Whether a folder stands there, and not a file. -/
def Node.isFolder : Node → Bool
  | .file _ => false
  | .folder => true

namespace Disk

/-! ## 1. Reading -/

variable {d d' d'' : Disk}

theorem find_eq_ok {path : Path} {p : Place} {n : Node} :
    d.find path = .ok (p, n) ↔ d.locate path = .ok p ∧ d.node? p = some n := by
  unfold find
  constructor
  · intro h
    obtain ⟨q, hq, h⟩ := bind_ok h
    cases hn : d.node? q with
    | none => simp [hn] at h
    | some m =>
      simp only [hn, Except.ok.injEq, Prod.mk.injEq] at h
      obtain ⟨rfl, rfl⟩ := h
      exact ⟨hq, hn⟩
  · rintro ⟨hp, hn⟩
    simp only [hp, bind, Except.bind, hn]

theorem has_iff {path : Path} :
    d.has path = true ↔ ∃ p n, d.locate path = .ok p ∧ d.node? p = some n := by
  unfold has
  constructor
  · intro h
    cases hf : d.find path with
    | error x => simp [hf, Except.toOption] at h
    | ok found => exact ⟨found.1, found.2, find_eq_ok.1 hf⟩
  · rintro ⟨p, n, hpn⟩
    rw [find_eq_ok.2 hpn]
    rfl

theorem read_eq_ok {path : Path} {bytes : Bytes} :
    d.read path = .ok bytes ↔ ∃ p, d.locate path = .ok p ∧ d.node? p = some (.file bytes) := by
  unfold read
  constructor
  · intro h
    obtain ⟨⟨p, n⟩, hf, h⟩ := bind_ok h
    obtain ⟨hp, hn⟩ := find_eq_ok.1 hf
    cases n with
    | folder => exact absurd h (by simp)
    | file b => exact ⟨p, hp, by rw [hn, Except.ok.inj h]⟩
  · rintro ⟨p, hn⟩
    rw [find_eq_ok.2 hn]
    rfl

theorem hasFile_iff {path : Path} :
    d.hasFile path = true ↔ ∃ p bytes, d.find path = .ok (p, .file bytes) := by
  unfold hasFile
  constructor
  · intro h
    split at h
    · rename_i p bytes hf
      exact ⟨p, bytes, hf⟩
    · exact Bool.noConfusion h
  · rintro ⟨p, bytes, hf⟩
    simp only [hf]

theorem readText_eq_ok {path : Path} {t : Text} :
    d.readText path = .ok t ↔ ∃ bytes, d.read path = .ok bytes ∧ Encoding.read bytes = .ok t := by
  unfold readText
  cases hr : d.read path with
  | error e => simp
  | ok b =>
    cases he : Encoding.read b with
    | error e => simp [he]
    | ok s => simp [he]

-- A write ends with the file at the place that the path leads to, where no folder was.
theorem write_ok {path : Path} {bytes : Bytes} (h : d.write path bytes = .ok d') :
    ∃ p, d.locate path = .ok p ∧ d.node? p ≠ some .folder ∧ d' = d.put p (.file bytes) := by
  unfold write at h
  split at h
  · exact absurd h (by simp)
  · obtain ⟨p, hl, h⟩ := bind_ok h
    split at h
    · exact absurd h (by simp)
    · rename_i hb
      rw [ne_eq, not_not] at hb
      rw [hb] at hl
      refine ⟨p, hl, ?_, ?_⟩
      · intro hn
        simp [hn] at h
      · split at h
        · exact absurd h (by simp)
        · exact (Except.ok.inj h).symm

/-! ## 2. Disks of one shape -/

/-- A place and what kind of node stands there. -/
def shape (n : Place × Node) : Place × Bool := (n.1, n.2.isFolder)

/-- The second disk is the first with other bytes in files, at places in `S` only. -/
structure Rewritten (S : Place → Prop) (d d' : Disk) : Prop where
  start : d'.start = d.start
  shape : d'.nodes.map shape = d.nodes.map shape
  kept : ∀ p, ¬ S p → d'.node? p = d.node? p

namespace Rewritten

variable {S T : Place → Prop}

theorem refl (d : Disk) : Rewritten S d d := ⟨rfl, rfl, fun _ _ => rfl⟩

theorem mono (h : Rewritten S d d') (hs : ∀ p, S p → T p) : Rewritten T d d' :=
  ⟨h.start, h.shape, fun p hp => h.kept p fun hn => hp (hs p hn)⟩

theorem trans (h : Rewritten S d d') (h' : Rewritten S d' d'') : Rewritten S d d'' :=
  ⟨h'.start.trans h.start, h'.shape.trans h.shape,
    fun p hp => (h'.kept p hp).trans (h.kept p hp)⟩

-- The same kind of node stands at each place.
theorem isFolder_node? (h : Rewritten S d d') (p : Place) :
    (d'.node? p).map Node.isFolder = (d.node? p).map Node.isFolder := by
  have key : ∀ ns : List (Place × Node),
      ((ns.find? (·.1 = p)).map (·.2)).map Node.isFolder =
        ((ns.map Disk.shape).find? (·.1 = p)).map (·.2) := by
    intro ns
    rw [List.find?_map, Option.map_map, Option.map_map]
    rfl
  unfold node?
  split
  · rfl
  · rw [key, key, h.shape]

/-- A folder stands on both disks, or a file on both, or nothing on both. -/
theorem node?_cases (h : Rewritten S d d') (p : Place) :
    (d.node? p = some .folder ∧ d'.node? p = some .folder) ∨
      (∃ a b, d.node? p = some (.file a) ∧ d'.node? p = some (.file b)) ∨
      (d.node? p = none ∧ d'.node? p = none) := by
  have hk := h.isFolder_node? p
  cases hn : d.node? p with
  | none =>
    rw [hn, Option.map_none, Option.map_eq_none_iff] at hk
    exact Or.inr (Or.inr ⟨rfl, hk⟩)
  | some n =>
    rw [hn, Option.map_some, Option.map_eq_some_iff] at hk
    obtain ⟨m, hm, he⟩ := hk
    cases n with
    | folder =>
      cases m with
      | folder => exact Or.inl ⟨rfl, hm⟩
      | file b => exact absurd he (by simp [Node.isFolder])
    | file a =>
      cases m with
      | folder => exact absurd he (by simp [Node.isFolder])
      | file b => exact Or.inr (Or.inl ⟨a, b, rfl, hm⟩)

theorem follow_eq (h : Rewritten S d d') (p : Place) (step : Text) :
    d'.follow p step = d.follow p step := by
  unfold follow
  rcases h.node?_cases p with ⟨h1, h2⟩ | ⟨a, b, h1, h2⟩ | ⟨h1, h2⟩
  · simp only [h1, h2]
  · simp only [h1, h2]
  · simp only [h1, h2]

/-- Every path leads where it led. -/
theorem locate_eq (h : Rewritten S d d') (path : Path) : d'.locate path = d.locate path := by
  have hf : d'.follow = d.follow := funext fun p => funext fun step => h.follow_eq p step
  unfold locate
  rw [hf, h.start]

theorem find_eq (h : Rewritten S d d') {path : Path} (hp : ∀ q, d.locate path = .ok q → ¬ S q) :
    d'.find path = d.find path := by
  unfold find
  rw [h.locate_eq path]
  cases hl : d.locate path with
  | error e => rfl
  | ok p => simp only [bind, Except.bind, h.kept p (hp p hl)]

/-- A path leads to folders, or to files, or to nothing, on both disks. -/
theorem find_cases (h : Rewritten S d d') (path : Path) :
    (∃ p, d.find path = .ok (p, .folder) ∧ d'.find path = .ok (p, .folder)) ∨
      (∃ p a b, d.find path = .ok (p, .file a) ∧ d'.find path = .ok (p, .file b)) ∨
      ∃ e, d.find path = .error e ∧ d'.find path = .error e := by
  have hl' := h.locate_eq path
  cases hl : d.locate path with
  | error e =>
    rw [hl] at hl'
    refine Or.inr (Or.inr ⟨e, ?_, ?_⟩)
    · simp only [find, hl, bind, Except.bind]
    · simp only [find, hl', bind, Except.bind]
  | ok p =>
    rw [hl] at hl'
    rcases h.node?_cases p with ⟨h1, h2⟩ | ⟨a, b, h1, h2⟩ | ⟨h1, h2⟩
    · exact Or.inl ⟨p, find_eq_ok.2 ⟨hl, h1⟩, find_eq_ok.2 ⟨hl', h2⟩⟩
    · exact Or.inr (Or.inl ⟨p, a, b, find_eq_ok.2 ⟨hl, h1⟩, find_eq_ok.2 ⟨hl', h2⟩⟩)
    · refine Or.inr (Or.inr ⟨.noEntry, ?_, ?_⟩)
      · simp only [find, hl, bind, Except.bind, h1]
      · simp only [find, hl', bind, Except.bind, h2]

theorem hasFile_eq (h : Rewritten S d d') (path : Path) : d'.hasFile path = d.hasFile path := by
  unfold hasFile
  rcases h.find_cases path with ⟨p, h1, h2⟩ | ⟨p, a, b, h1, h2⟩ | ⟨e, h1, h2⟩
  · simp only [h1, h2]
  · simp only [h1, h2]
  · simp only [h1, h2]

/-- What is read elsewhere is what was read before. -/
theorem read_eq (h : Rewritten S d d') {path : Path} (hp : ∀ q, d.locate path = .ok q → ¬ S q) :
    d'.read path = d.read path := by
  unfold read
  rw [h.find_eq hp]

theorem readText_eq (h : Rewritten S d d') {path : Path}
    (hp : ∀ q, d.locate path = .ok q → ¬ S q) : d'.readText path = d.readText path := by
  unfold readText
  rw [h.read_eq hp]

/-- A file can be written on both disks, or on neither for the same reason. -/
theorem write_cases (h : Rewritten S d d') (path : Path) (bytes : Bytes) :
    (∃ x, d.write path bytes = .error x ∧ d'.write path bytes = .error x) ∨
      ∃ e e', d.write path bytes = .ok e ∧ d'.write path bytes = .ok e' := by
  unfold write
  split
  · exact Or.inl ⟨_, rfl, rfl⟩
  · rw [h.locate_eq]
    cases d.locate (bare path) with
    | error x => exact Or.inl ⟨x, rfl, rfl⟩
    | ok p =>
      simp only [bind, Except.bind]
      split
      · exact Or.inl ⟨_, rfl, rfl⟩
      · rcases h.node?_cases p with ⟨h1, h2⟩ | ⟨a, b, h1, h2⟩ | ⟨h1, h2⟩
        · simp only [h1, h2]
          exact Or.inl ⟨_, rfl, rfl⟩
        · simp only [h1, h2]
          exact Or.inr ⟨_, _, rfl, rfl⟩
        · simp only [h1, h2]
          exact Or.inr ⟨_, _, rfl, rfl⟩

theorem filesUnder_map_fst (p : Place) (ns : List (Place × Node)) :
    (filesUnder p ns).map (·.1) =
      ((ns.map Disk.shape).filter fun n => !n.2 && p.isPrefixOf n.1 && p.length < n.1.length).map
        fun n => n.1.drop p.length := by
  induction ns with
  | nil => rfl
  | cons n r ih =>
    obtain ⟨q, n⟩ := n
    cases n with
    | folder =>
      rw [filesUnder, ih, List.map_cons, List.filter_cons_of_neg (by simp [Disk.shape, Node.isFolder])]
    | file b =>
      rw [filesUnder, List.map_cons]
      by_cases hc : p.isPrefixOf q = true ∧ p.length < q.length
      · rw [if_pos hc, List.map_cons, ih, List.filter_cons_of_pos, List.map_cons]
        · rfl
        · simp [Disk.shape, Node.isFolder, hc.1, hc.2]
      · rw [if_neg hc, ih, List.filter_cons_of_neg]
        rw [Bool.and_eq_true, decide_eq_true_eq]
        simpa [Disk.shape, Node.isFolder] using hc

/-- A walk finds files at the same places. -/
theorem filesBelow_map_fst (h : Rewritten S d d') (p : Place) :
    (d'.filesBelow p).map (·.1) = (d.filesBelow p).map (·.1) := by
  have key : ∀ e : Disk, (e.filesBelow p).map (·.1) =
      ((filesUnder p e.nodes).map (·.1)).mergeSort Place.before := by
    intro e
    unfold filesBelow
    exact List.map_mergeSort fun _ _ _ _ => rfl
  rw [key, key, filesUnder_map_fst, filesUnder_map_fst, h.shape]

end Rewritten

/-! ## 3. Writing again -/

theorem map_shape_putNode {p : Place} {n m : Node} {ns : List (Place × Node)}
    (h : (ns.find? (·.1 = p)).map (·.2) = some m) (hm : m.isFolder = n.isFolder) :
    (putNode p n ns).map shape = ns.map shape := by
  induction ns with
  | nil => simp at h
  | cons k r ih =>
    obtain ⟨a, k⟩ := k
    by_cases ha : a = p
    · subst ha
      obtain rfl : k = m := by simpa using h
      simp [putNode, shape, hm]
    · rw [putNode, if_neg ha, List.map_cons, List.map_cons, ih]
      simpa [ha] using h

/-- A file that is written again changes its own bytes only. -/
theorem rewritten_write {path : Path} {old new : Bytes} (hr : d.read path = .ok old)
    (hw : d.write path new = .ok d') : ∃ p, d.locate path = .ok p ∧
      Rewritten (fun q => q = p) d d' ∧ d'.node? p = some (.file new) := by
  obtain ⟨p, hl, hn⟩ := read_eq_ok.1 hr
  obtain ⟨q, hq, -, rfl⟩ := write_ok hw
  obtain rfl : p = q := Except.ok.inj (hl.symm.trans hq)
  have hne : p ≠ [] := by
    intro he
    rw [he, node?_nil] at hn
    exact absurd hn (by simp)
  have hnamed := named_of_node? hn
  refine ⟨p, hl, ⟨?_, ?_, fun q hq => node?_put_ne d hq _⟩, node?_put_self d hne hnamed _⟩
  · unfold put
    rw [dif_pos hnamed]
  · unfold node? at hn
    rw [if_neg hne] at hn
    unfold put
    rw [dif_pos hnamed]
    exact map_shape_putNode hn rfl

/-! ## 4. Writing new files -/

/-- The second disk has the folders of the first, and it may have more. -/
structure MoreFolders (d d' : Disk) : Prop where
  start : d'.start = d.start
  folders : ∀ p, d.node? p = some .folder → d'.node? p = some .folder

namespace MoreFolders

/-- A step from a folder leads where it led. -/
theorem follow_eq (h : MoreFolders d d') {p : Place} (hp : d.node? p = some .folder)
    (step : Text) : d'.follow p step = d.follow p step := by
  unfold follow
  rw [hp, h.folders p hp]

theorem walk_of_ok (h : MoreFolders d d') {p q : Place} {steps : List Text}
    (hw : d.walk p steps = .ok q) : d'.walk p steps = .ok q := by
  induction steps generalizing p with
  | nil => exact hw
  | cons s r ih =>
    obtain ⟨k, hk, hw⟩ := walk_cons_ok hw
    rw [walk_cons, h.follow_eq (follow_ok hk).1, hk]
    exact ih hw

/-- A path that leads somewhere leads there still. -/
theorem locate_of_ok (h : MoreFolders d d') {path : Path} {q : Place}
    (hl : d.locate path = .ok q) : d'.locate path = .ok q := by
  have ho : d'.origin path = d.origin path := by
    unfold origin
    rw [h.start]
  rw [locate_eq_ok] at hl ⊢
  rw [ho]
  exact ⟨hl.1, hl.2.1, hl.2.2.1, h.walk_of_ok hl.2.2.2⟩

end MoreFolders

/-- The second disk has the folders of the first. -/
structure SameFolders (d d' : Disk) : Prop where
  start : d'.start = d.start
  folders : ∀ p, d'.node? p = some .folder ↔ d.node? p = some .folder

namespace SameFolders

theorem refl (d : Disk) : SameFolders d d := ⟨rfl, fun _ => Iff.rfl⟩

theorem trans (h : SameFolders d d') (h' : SameFolders d' d'') : SameFolders d d'' :=
  ⟨h'.start.trans h.start, fun p => (h'.folders p).trans (h.folders p)⟩

theorem symm (h : SameFolders d d') : SameFolders d' d :=
  ⟨h.start.symm, fun p => (h.folders p).symm⟩

theorem more (h : SameFolders d d') : MoreFolders d d' := ⟨h.start, fun p => (h.folders p).2⟩

theorem locate_of_ok (h : SameFolders d d') {path : Path} {q : Place}
    (hl : d.locate path = .ok q) : d'.locate path = .ok q := h.more.locate_of_ok hl

theorem locate_iff (h : SameFolders d d') {path : Path} {q : Place} :
    d'.locate path = .ok q ↔ d.locate path = .ok q :=
  ⟨h.symm.locate_of_ok, h.locate_of_ok⟩

end SameFolders

/-- A write, to a new file or an old one, leaves the folders and all other files as they are. -/
theorem sameFolders_write {path : Path} {bytes : Bytes} (h : d.write path bytes = .ok d') :
    ∃ p, d.locate path = .ok p ∧ SameFolders d d' ∧ d'.node? p = some (.file bytes) ∧
      ∀ q, q ≠ p → d'.node? q = d.node? q := by
  obtain ⟨p, hp, hn, rfl⟩ := write_ok h
  have hne : p ≠ [] := fun he => hn (by rw [he, node?_nil])
  have hnamed := named_locate hp
  have hself := node?_put_self d hne hnamed (.file bytes)
  refine ⟨p, hp, ⟨?_, fun q => ?_⟩, hself, fun q hq => node?_put_ne d hq _⟩
  · unfold put
    rw [dif_pos hnamed]
  · by_cases hq : q = p
    · -- neither the new file nor what it replaces is a folder
      rw [hq, hself]
      exact iff_of_false (by simp) hn
    · rw [node?_put_ne d hq]

-- Where something stands, or was written, something stands after a write.
theorem has_write {path other : Path} {bytes : Bytes} (h : d.write path bytes = .ok d')
    (ho : other = path ∨ d.has other = true) : d'.has other = true := by
  obtain ⟨p, hp, hsame, hn, hrest⟩ := sameFolders_write h
  rw [has_iff]
  rcases ho with rfl | ho
  · exact ⟨p, _, hsame.locate_of_ok hp, hn⟩
  · obtain ⟨q, n, hq, hnode⟩ := has_iff.1 ho
    by_cases hqp : q = p
    · exact ⟨q, _, hsame.locate_of_ok hq, hqp ▸ hn⟩
    · exact ⟨q, n, hsame.locate_of_ok hq, (hrest q hqp).trans hnode⟩

-- A write makes a file, and keeps those that are there.
theorem hasFile_write {path other : Path} {bytes : Bytes} (h : d.write path bytes = .ok d')
    (ho : other = path ∨ d.hasFile other = true) : d'.hasFile other = true := by
  obtain ⟨p, hp, hsame, hn, hrest⟩ := sameFolders_write h
  rw [hasFile_iff]
  rcases ho with rfl | ho
  · exact ⟨p, bytes, find_eq_ok.2 ⟨hsame.locate_of_ok hp, hn⟩⟩
  · obtain ⟨q, old, hq⟩ := hasFile_iff.1 ho
    obtain ⟨hlocate, hfile⟩ := find_eq_ok.1 hq
    have hlocate := hsame.locate_of_ok hlocate
    by_cases hqp : q = p
    · exact ⟨p, bytes, find_eq_ok.2 ⟨hqp ▸ hlocate, hn⟩⟩
    · exact ⟨q, old, find_eq_ok.2 ⟨hlocate, (hrest q hqp).trans hfile⟩⟩

end Disk

end Baselines
