import Baselines.Proofs.Authoring.Visible
import Baselines.Proofs.Disk.Growth
import Baselines.Proofs.Disk.Order

/-!
# Sources beside baselines

No baseline is taken for a source, also where baselines are written into the folder of the sources. So
an authoring leaves the sources as they are, and they are indexed and loaded alike at every time.
-/

namespace Baselines

open Text Disk

variable {d d' d'' : Disk}

/-! ## 1. Disks with the same sources -/

/-- By its name the file at a place is a source. -/
def SourceIndex.isSource (p : Place) : Bool := (p.getLast?.bind testOf?).isSome

/-- The second disk has the sources of the first and no others, and it has the folders of the first. -/
structure SameSources (d d' : Disk) : Prop extends MoreFolders d d' where
  files : ∀ p, SourceIndex.isSource p = true → ∀ bytes,
    d'.node? p = some (.file bytes) ↔ d.node? p = some (.file bytes)

namespace SameSources

theorem refl (d : Disk) : SameSources d d := ⟨⟨rfl, fun _ h => h⟩, fun _ _ _ => Iff.rfl⟩

theorem trans (h : SameSources d d') (h' : SameSources d' d'') : SameSources d d'' where
  start := h'.start.trans h.start
  folders p hp := h'.folders p (h.folders p hp)
  files p hp bytes := (h'.files p hp bytes).trans (h.files p hp bytes)

end SameSources

theorem Disk.Extended.sameSources (h : Extended d d') : SameSources d d' where
  toMoreFolders := h.more
  files p _ bytes := ⟨h.files p bytes, h.kept p (.file bytes)⟩

-- A file that is no source can be written.
theorem sameSources_write {path : Path} {bytes : Bytes} (h : d.write path bytes = .ok d')
    (hp : ∀ p, d.locate path = .ok p → SourceIndex.isSource p = false) : SameSources d d' := by
  obtain ⟨p, hl, hsame, -, hother⟩ := sameFolders_write h
  refine ⟨hsame.more, fun q hq b => ?_⟩
  have hqp : q ≠ p := by
    rintro rfl
    rw [hp q hl] at hq
    exact absurd hq (by simp)
  rw [hother q hqp]

/-! ## 2. The index -/

namespace SourceIndex

variable {root : Path} {index : SourceIndex}

theorem isSource_append (r : Place) {p : Place} (hp : p ≠ []) : isSource (r ++ p) = isSource p := by
  unfold isSource
  rw [List.getLast?_append_of_ne_nil r hp]

-- Other files are passed over.
theorem foldl_addFile_filter (ps : List Place) (index : SourceIndex) :
    (ps.filter isSource).foldl (addFile root) index = ps.foldl (addFile root) index := by
  induction ps generalizing index with
  | nil => rfl
  | cons p r ih =>
    by_cases hp : isSource p = true
    · rw [List.filter_cons_of_pos hp, List.foldl_cons, List.foldl_cons, ih]
    · have hnone : p.getLast?.bind testOf? = none := by simpa [isSource] using hp
      have hskip : addFile root index p = index := by
        unfold addFile
        rw [hnone]
      rw [List.filter_cons_of_neg hp, List.foldl_cons, hskip, ih]

/-- The same sources are indexed alike. -/
theorem build_same (h : SameSources d d') (hb : build d root = .ok index) :
    build d' root = .ok index := by
  rw [build_eq] at hb ⊢
  unfold Discovery.filesOf at hb ⊢
  split at hb
  · rename_i r hr
    obtain ⟨hl, hn⟩ := find_eq_ok.1 hr
    rw [find_eq_ok.2 ⟨h.locate_of_ok hl, h.folders r hn⟩]
    have hsame : ((d'.filesBelow r).map (·.1)).filter isSource =
        ((d.filesBelow r).map (·.1)).filter isSource := by
      apply filter_filesBelow
      intro p hp hs
      simp only [h.files (r ++ p) (by rw [isSource_append r hp, hs])]
    rw [← hb]
    simp only [Except.map]
    rw [← foldl_addFile_filter ((d'.filesBelow r).map (·.1)), hsame, foldl_addFile_filter]
  · exact absurd hb (by simp [Except.map])

end SourceIndex

namespace Authoring

variable {a : Authoring} {test : Text} {source : Source} {j : Job}

/-! ## 3. Loading -/

theorem loadSource_congr {path : Path} (h : d'.readText path = d.readText path) :
    loadSource d' path = loadSource d path := by
  unfold loadSource Source.load
  rw [h]

section Loading

variable (hg : Grounded d) {index : SourceIndex} (hi : SourceIndex.build d a.sources = .ok index)
  {entry : Text × Path} (he : entry ∈ index)

include hg hi he

-- A source is loaded alike on a disk that has kept it, with the folders around it.
theorem loadSource_kept (h : MoreFolders d d') (hk : ∀ p bytes, SourceIndex.isSource p = true →
      d.node? p = some (.file bytes) → d'.node? p = some (.file bytes)) :
    loadSource d' entry.2 = loadSource d entry.2 := by
  obtain ⟨root, hroot, f, hf, hpath, htest⟩ := SourceIndex.mem_build hi he
  obtain ⟨hne, hnamed⟩ := mem_filesBelow hf
  have hn := node?_filesBelow hf
  have hsource : SourceIndex.isSource (root ++ f.1) = true := by
    rw [SourceIndex.isSource_append root hne, SourceIndex.isSource, htest]
    rfl
  have hfind := h.find_below hg hroot hne hnamed hn (hk _ _ hsource hn)
  rw [← hpath] at hfind
  apply loadSource_congr
  unfold readText Disk.read
  rw [hfind]

theorem loadSource_grown (h : Grown d d') : loadSource d' entry.2 = loadSource d entry.2 :=
  loadSource_kept hg hi he h.more fun p bytes _ => h.kept p (.file bytes)

theorem loadSource_same (h : SameSources d d') : loadSource d' entry.2 = loadSource d entry.2 :=
  loadSource_kept hg hi he h.toMoreFolders fun p bytes hp => (h.files p hp bytes).2

end Loading

/-! ## 4. Baselines -/

theorem testOf?_ending (stem : Text) (stage : Stage) :
    SourceIndex.testOf? (stem ++ Name.ending stage) = none := by
  rw [Option.eq_none_iff_forall_ne_some]
  intro test h
  obtain ⟨extension, hs, hm⟩ := SourceIndex.testOf?_eq_some h
  rw [Name.splitLast?_ending, Option.some.injEq, Prod.mk.injEq] at hs
  have hjs : "js".toList ∉ SourceIndex.extensions := by decide
  exact hjs (hs.2 ▸ hm)

/-- No baseline stands where it could be a source. -/
theorem isSource_job (hj : j ∈ a.jobs test source) (ht : '/' ∉ test) {p : Place}
    (hp : d.locate j.path = .ok p) : SourceIndex.isSource p = false := by
  rw [path_job hj] at hp
  obtain ⟨r, -, hw⟩ := locate_append_walk (not_isAbsolute_render hj ht) hp
  obtain ⟨k, rfl⟩ := exists_place_of_walk hj hw
  unfold SourceIndex.isSource
  rw [List.getLast?_concat, Option.bind_some, testOf?_ending]
  rfl

end Authoring

end Baselines
