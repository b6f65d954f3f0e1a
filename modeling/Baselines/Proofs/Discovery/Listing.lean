import Baselines.Proofs.Discovery
import Baselines.Proofs.Text.ByteOrder
import Baselines.Proofs.Text.Parts

/-!
# Listings of baselines

A discovery lists every file below the folder whose name is that of a baseline and that the selection
covers, each once, in the order of the bytes of their paths. Where no name has a backslash, what a
selection lists is what is listed without one, less what it does not cover.
-/

namespace Baselines

open Text

/-! ## 1. What a selection covers -/

namespace Selection

variable {s : Selection} {relative : Path} {name : Name}

/-- What a selection asks of a baseline: a pattern with wildcards fits its path or the name of its
file, any other pattern is a part of its path, and its stage and its target are those asked for. -/
structure Covers (s : Selection) (relative : Path) (name : Name) : Prop where
  pattern : ∀ p, s.pattern = some p →
    match s.wildcards with
    | some fits => fits relative = true ∨
        ∃ file, relative.fileName? = some file ∧ fits file = true
    | none => p <:+: slashed relative
  stage : ∀ t, s.stage = some t → name.effectiveStage = t
  target : ∀ t, s.target = some t → name.target = .ok (some t)

theorem admitsPath_iff : s.admitsPath relative = true ↔ ∀ p, s.pattern = some p →
    match s.wildcards with
    | some fits => fits relative = true ∨
        ∃ file, relative.fileName? = some file ∧ fits file = true
    | none => p <:+: slashed relative := by
  unfold admitsPath
  cases hp : s.pattern with
  | none => simp
  | some p =>
    cases hw : s.wildcards with
    | none => simp [hasPart_eq_true_iff]
    | some fits => simp [Option.any_eq_true]

theorem admitsStage_iff :
    s.admitsStage name = true ↔ ∀ t, s.stage = some t → name.effectiveStage = t := by
  unfold admitsStage
  cases s.stage <;> simp

theorem admitsTarget_iff :
    s.admitsTarget name = true ↔ ∀ t, s.target = some t → name.target = .ok (some t) := by
  unfold admitsTarget
  cases s.target with
  | none => simp
  | some t =>
    cases name.target with
    | error f => simp
    | ok found => simp

theorem admits_iff : s.admits relative name = true ↔ s.Covers relative name := by
  unfold admits
  rw [Bool.and_eq_true, Bool.and_eq_true, admitsPath_iff, admitsStage_iff, admitsTarget_iff]
  exact ⟨fun h => ⟨h.1.1, h.1.2, h.2⟩, fun h => ⟨⟨h.pattern, h.stage⟩, h.target⟩⟩

theorem covers_all (relative : Path) (name : Name) : ({} : Selection).Covers relative name :=
  ⟨nofun, nofun, nofun⟩

end Selection

namespace Discovery

variable {d : Disk} {root : Path} {r p q : Place} {s : Selection} {f g : Found}
variable {found : List Found}

/-! ## 2. Baselines on a disk -/

/-- The file at the place `p` below a folder is the baseline `f`, and the selection covers it. -/
structure StandsAt (d : Disk) (root : Path) (r : Place) (s : Selection) (p : Place) (f : Found) :
    Prop where
  below : p ≠ []
  file : ∃ bytes, d.node? (r ++ p) = some (.file bytes)
  name : ∃ last, p.getLast? = some last ∧ Name.parse last = .ok f.name
  path : f.path = Path.append root (Disk.relativePath p)
  relative : f.relative = Disk.relativePath p
  covered : s.Covers f.relative f.name

/-- A baseline stands at one place. -/
theorem StandsAt.unique {t : Selection} (hp : StandsAt d root r s p f)
    (hq : StandsAt d root r t q f) : p = q := by
  have named : ∀ {k : Place}, (∃ bytes, d.node? (r ++ k) = some (.file bytes)) →
      k.all Path.isName = true := by
    rintro k ⟨bytes, hk⟩
    have h := Disk.named_of_node? hk
    rw [List.all_append, Bool.and_eq_true] at h
    exact h.2
  rw [← Path.splitOn_relativePath hp.below (named hp.file), ← hp.relative, hq.relative,
    Path.splitOn_relativePath hq.below (named hq.file)]

theorem found?_eq_some_iff (hb : ∀ name ∈ p, '\\' ∉ name) : found? root s p = some f ↔
    (∃ last, p.getLast? = some last ∧ Name.parse last = .ok f.name) ∧
      f.path = Path.append root (Disk.relativePath p) ∧ f.relative = Disk.relativePath p ∧
      s.Covers f.relative f.name := by
  unfold found?
  simp only [slashed_relativePath hb]
  constructor
  · intro h
    split at h
    · rename_i name hn
      obtain ⟨last, hlast, hparse⟩ := Option.map_eq_some_iff.1 hn
      split at h
      · rename_i hadmits
        obtain rfl := Option.some.inj h
        exact ⟨⟨last, hlast, hparse⟩, rfl, rfl, Selection.admits_iff.1 hadmits⟩
      · exact absurd h (by simp)
    · exact absurd h (by simp)
  · rintro ⟨⟨last, hlast, hparse⟩, hpath, hrelative, hcovers⟩
    rw [hrelative] at hcovers
    simp only [hlast, Option.map_some, hparse, Selection.admits_iff.2 hcovers, if_true]
    rw [← hpath, ← hrelative]

/-! ## 3. Listings -/

/-- Every baseline that a selection covers is found, and nothing else is. -/
theorem mem_baselines (hr : d.find root = .ok (r, .folder)) (hb : PlainNames d root)
    (h : baselines d root s = .ok found) : f ∈ found ↔ ∃ p, StandsAt d root r s p f := by
  obtain ⟨k, hk, hperm⟩ := baselines_perm h
  obtain rfl := Except.ok.inj ((Disk.find_eq_ok.1 hr).1.symm.trans hk)
  rw [hperm.mem_iff, List.mem_filterMap]
  constructor
  · rintro ⟨p, hp, hf⟩
    obtain ⟨file, hfile, rfl⟩ := List.mem_map.1 hp
    obtain ⟨hname, hpath, hrelative, hcovers⟩ :=
      (found?_eq_some_iff (hb r hk file hfile)).1 hf
    exact ⟨file.1, (Disk.mem_filesBelow hfile).1, ⟨file.2, Disk.node?_filesBelow hfile⟩, hname,
      hpath, hrelative, hcovers⟩
  · rintro ⟨p, hbelow, ⟨bytes, hfile⟩, hname, hpath, hrelative, hcovers⟩
    have hm := Disk.mem_filesBelow_of_node? hbelow hfile
    exact ⟨p, List.mem_map.2 ⟨(p, bytes), hm, rfl⟩,
      (found?_eq_some_iff (hb r hk _ hm)).2 ⟨hname, hpath, hrelative, hcovers⟩⟩

-- Nothing is found twice.
theorem nodup_baselines (hb : PlainNames d root) (h : baselines d root s = .ok found) :
    found.Nodup := by
  obtain ⟨r, hr, hperm⟩ := baselines_perm h
  rw [hperm.nodup_iff, List.nodup_iff_pairwise_ne, List.pairwise_filterMap]
  refine List.Pairwise.imp_of_mem ?_ (Disk.nodup_filesBelow d r)
  intro p q hp hq hne f hf g hg hfg
  obtain ⟨a, ha, rfl⟩ := List.mem_map.1 hp
  obtain ⟨b, hb', rfl⟩ := List.mem_map.1 hq
  rw [found?_eq_some_iff (hb r hr a ha)] at hf
  rw [found?_eq_some_iff (hb r hr b hb'), ← hfg] at hg
  obtain ⟨ha0, han⟩ := Disk.mem_filesBelow ha
  obtain ⟨hb0, hbn⟩ := Disk.mem_filesBelow hb'
  apply hne
  rw [← Path.splitOn_relativePath ha0 han, ← hf.2.2.1, hg.2.2.1,
    Path.splitOn_relativePath hb0 hbn]

theorem sorted_baselines (hb : PlainNames d root) (h : baselines d root s = .ok found) :
    found.Pairwise fun f g => Precedes f.relative g.relative := by
  have htotal : ∀ f g : Found, (before f.relative g.relative || before g.relative f.relative) =
      true := by
    intro f g
    simpa using before_total f.relative g.relative
  have htrans : ∀ f g k : Found, before f.relative g.relative = true →
      before g.relative k.relative = true → before f.relative k.relative = true :=
    fun _ _ _ => before_trans
  have hsorted : found.Pairwise fun f g => before f.relative g.relative = true := by
    rw [baselines_eq] at h
    cases hf : filesOf d root with
    | error e => simp [hf, Except.map] at h
    | ok files =>
      simp only [hf, Except.map, Except.ok.injEq] at h
      rw [← h]
      exact List.pairwise_mergeSort htrans htotal _
  -- two baselines of one path would be one baseline, and it is there once
  refine List.Pairwise.imp_of_mem ?_ (hsorted.and (nodup_baselines hb h))
  intro f g hf hg hfg
  exact precedes_of_before hfg.1 fun he => hfg.2 (eq_of_relative h hb hf hg he)

/-- Listings in strict order of the paths are known by their members. -/
theorem eq_of_sorted {as bs : List Found}
    (ha : as.Pairwise fun f g => Precedes f.relative g.relative)
    (hb : bs.Pairwise fun f g => Precedes f.relative g.relative) (h : ∀ f, f ∈ as ↔ f ∈ bs) :
    as = bs := by
  have nodup : ∀ {cs : List Found},
      (cs.Pairwise fun f g => Precedes f.relative g.relative) → cs.Nodup := by
    intro cs hc
    refine hc.imp fun {f g} hfg he => ?_
    rw [he] at hfg
    exact not_precedes_self _ hfg
  have hperm : as.Perm bs := (List.perm_ext_iff_of_nodup (nodup ha) (nodup hb)).2 h
  refine hperm.eq_of_pairwise (fun f g _ _ hfg hgf => ?_) ha hb
  exact absurd (precedes_trans hfg hgf) (not_precedes_self _)

theorem baselines_filter {all : List Found} (hr : d.find root = .ok (r, .folder))
    (hb : PlainNames d root) (h : baselines d root s = .ok found)
    (ha : baselines d root {} = .ok all) : found = all.filter fun f => s.admits f.relative f.name := by
  refine eq_of_sorted (sorted_baselines hb h) ((sorted_baselines hb ha).filter _) fun f => ?_
  rw [List.mem_filter, mem_baselines hr hb h, mem_baselines hr hb ha, Selection.admits_iff]
  constructor
  · rintro ⟨p, hp⟩
    exact ⟨⟨p, hp.below, hp.file, hp.name, hp.path, hp.relative, Selection.covers_all _ _⟩,
      hp.covered⟩
  · rintro ⟨⟨p, hp⟩, hcovered⟩
    exact ⟨p, hp.below, hp.file, hp.name, hp.path, hp.relative, hcovered⟩

/-- Below a folder, with no backslash in a name, a discovery lists the files whose names are those of
baselines and that the selection covers, at any depth, each at its one place and nothing else; their
paths grow strictly by their bytes; and it is the listing without a selection less what is not
covered. -/
theorem baselines_listing (s : Selection) (hr : d.find root = .ok (r, .folder))
    (hb : PlainNames d root) : ∃ found all,
      baselines d root s = .ok found ∧ baselines d root {} = .ok all ∧
        (∀ f, f ∈ found ↔ ∃ p, StandsAt d root r s p f) ∧
        (∀ f p q, StandsAt d root r s p f → StandsAt d root r s q f → p = q) ∧
        (found.Pairwise fun f g =>
          Encoding.utf8Encode f.relative < Encoding.utf8Encode g.relative) ∧
        found = all.filter fun f => s.admits f.relative f.name := by
  have total : ∀ t, ∃ found, baselines d root t = .ok found := by
    intro t
    unfold baselines filesOf
    rw [hr]
    exact ⟨_, rfl⟩
  obtain ⟨found, hfound⟩ := total s
  obtain ⟨all, hall⟩ := total {}
  refine ⟨found, all, hfound, hall, fun f => mem_baselines hr hb hfound,
    fun f p q hp hq => hp.unique hq, ?_, baselines_filter hr hb hfound hall⟩
  exact (sorted_baselines hb hfound).imp Encoding.utf8Encode_lt_of_precedes

/-- A disk with baselines in a folder and in one within it. -/
def nestedDisk : Disk where
  nodes :=
    [(["b".toList], .folder), (["b".toList, "README.md".toList], .file []),
      (["b".toList, "a".toList], .folder),
      (["b".toList, "a".toList, "x.js".toList], .file []),
      (["b".toList, "a.js".toList], .file []),
      (["b".toList, "a.minified.js".toList], .file [])]
  distinct := by decide
  named := by decide

def onlyNormal : Selection := { stage := some .normal }

def outerFound : Found where
  path := "/b/a.js"
  relative := "a.js"
  name := { test := "a", options := [], variant := none, stage := none, extension := "js" }

def innerFound : Found where
  path := "/b/a/x.js"
  relative := "a/x.js"
  name := { test := "x", options := [], variant := none, stage := none, extension := "js" }

-- The walk meets the inner one first, but a dot comes before a slash.
theorem nested_baselines : baselines nestedDisk "/b" onlyNormal = .ok [outerFound, innerFound] := by
  have hfiles : filesOf nestedDisk "/b" = .ok (Disk.filesUnder ["b".toList] nestedDisk.nodes) :=
    filesOf_of_sorted (by decide +kernel) (by decide +kernel)
  have hfound : (Disk.filesUnder ["b".toList] nestedDisk.nodes).filterMap
      (fun f => found? "/b" onlyNormal f.1) = [innerFound, outerFound] := by decide +kernel
  unfold baselines
  rw [hfiles]
  show Except.ok (List.mergeSort _ _) = _
  have hdot : Text.before innerFound.relative outerFound.relative = false := by decide
  rw [hfound]
  simp [List.mergeSort, hdot]

theorem baselines_listing_nested :
    nestedDisk.find "/b" = .ok (["b".toList], .folder) ∧ PlainNames nestedDisk "/b" ∧
      baselines nestedDisk "/b" onlyNormal = .ok [outerFound, innerFound] ∧
      (∀ f, f ∈ [outerFound, innerFound] ↔
        ∃ p, StandsAt nestedDisk "/b" ["b".toList] onlyNormal p f) ∧
      ([outerFound, innerFound].Pairwise fun f g =>
        Encoding.utf8Encode f.relative < Encoding.utf8Encode g.relative) ∧
      ∃ all, baselines nestedDisk "/b" {} = .ok all ∧
        [outerFound, innerFound] = all.filter fun f => onlyNormal.admits f.relative f.name := by
  have hr : nestedDisk.find "/b" = .ok (["b".toList], .folder) := by decide +kernel
  have hb : PlainNames nestedDisk "/b" := .of_nodes (by decide) _
  obtain ⟨found, all, hfound, hall, hmem, -, hsorted, hfilter⟩ :=
    baselines_listing onlyNormal hr hb
  obtain rfl := Except.ok.inj (nested_baselines.symm.trans hfound)
  exact ⟨hr, hb, nested_baselines, hmem, hsorted, all, hall, hfilter⟩

end Discovery

end Baselines
