import Baselines.Proofs.Disk.Frame

/-!
# Disks that grow

Making folders adds to a disk and takes nothing away. Files that are written into a folder without
folders in it stand there under names that are short enough and hold no slash.
-/

namespace Baselines.Disk

open Text

variable {d d' d'' : Disk}

/-! ## 1. Making folders -/

/-- Whatever stands somewhere on the first disk stands there on the second. -/
structure Grown (d d' : Disk) : Prop where
  start : d'.start = d.start
  kept : ∀ p n, d.node? p = some n → d'.node? p = some n

namespace Grown

theorem refl (d : Disk) : Grown d d := ⟨rfl, fun _ _ h => h⟩

theorem trans (h : Grown d d') (h' : Grown d' d'') : Grown d d'' :=
  ⟨h'.start.trans h.start, fun p n hp => h'.kept p n (h.kept p n hp)⟩

theorem more (h : Grown d d') : MoreFolders d d' := ⟨h.start, fun p => h.kept p .folder⟩

end Grown

/-- The second disk is the first with more folders. -/
structure Extended (d d' : Disk) : Prop extends Grown d d' where
  files : ∀ p bytes, d'.node? p = some (.file bytes) → d.node? p = some (.file bytes)

namespace Extended

theorem refl (d : Disk) : Extended d d := ⟨.refl d, fun _ _ h => h⟩

theorem trans (h : Extended d d') (h' : Extended d' d'') : Extended d d'' :=
  ⟨h.toGrown.trans h'.toGrown, fun p bytes hp => h.files p bytes (h'.files p bytes hp)⟩

end Extended

theorem start_put (d : Disk) (p : Place) (n : Node) : (d.put p n).start = d.start := by
  unfold put
  split
  · rfl
  · rfl

theorem grown_put {p : Place} (hp : d.node? p = none) (n : Node) : Grown d (d.put p n) := by
  refine ⟨start_put d p n, fun q m hq => ?_⟩
  have hne : q ≠ p := by
    intro he
    rw [he, hp] at hq
    exact absurd hq (by simp)
  rw [node?_put_ne d hne, hq]

theorem extended_put {p : Place} (hp : d.node? p = none) : Extended d (d.put p .folder) := by
  refine ⟨grown_put hp .folder, fun q bytes hq => ?_⟩
  by_cases hqp : q = p
  · -- where the folder was put there is no file, if it was put at all
    subst hqp
    unfold put at hq
    split at hq
    · rename_i hnamed
      have hne : q ≠ [] := by
        rintro rfl
        exact absurd hp (by simp [node?_nil])
      have hself := node?_put_self d hne hnamed .folder
      unfold put at hself
      rw [dif_pos hnamed, hq] at hself
      exact absurd hself (by simp)
    · exact hq
  · rwa [node?_put_ne d hqp] at hq

-- A folder is made where a path leads to and nothing stands.
theorem makeFolder_ok {path : Path} (h : d.makeFolder path = .ok d') :
    Encoding.utf8Length path ≤ longestPath ∧
      ∃ p, d.locate (bare path) = .ok p ∧ d.node? p = none ∧ d' = d.put p .folder := by
  unfold makeFolder at h
  split at h
  · exact absurd h (by simp)
  · rename_i hlong
    split at h
    · exact absurd h (by simp)
    · obtain ⟨p, hp, h⟩ := bind_ok h
      split at h
      · exact absurd h (by simp)
      · rename_i hn
        refine ⟨?_, p, hp, hn, (Except.ok.inj h).symm⟩
        -- a path with a zero byte in it leads nowhere, also with slashes behind it
        have hnul : '\x00' ∉ path := by
          intro hm
          obtain ⟨w, hw, hall⟩ := exists_dropEndWhile (· == '/') path
          rw [hw] at hm
          rcases List.mem_append.1 hm with hm | hm
          · exact (locate_eq_ok.1 hp).1 hm
          · exact absurd (hall _ hm) (by decide)
        by_contra hl
        exact hlong ⟨by omega, hnul⟩

-- Folders are made one in the other, unless they are there already.
theorem makeFoldersUpTo_ok {n : Nat} {path : Path}
    (h : makeFoldersUpTo (n + 1) d path = .ok d') :
    (path = [] ∧ d' = d) ∨
      ∃ e, (e = d ∨ ∃ above, path.parent? = some above ∧ makeFoldersUpTo n d above = .ok e) ∧
        (e.makeFolder path = .ok d' ∨ (e.hasFolder path = true ∧ d' = e)) := by
  have hthere : ∀ {e e' : Disk} {x : DiskFault},
      (if e.hasFolder path then Except.ok e else .error x) = .ok e' →
        e.hasFolder path = true ∧ e' = e := by
    intro e e' x he
    split at he
    · rename_i hf
      exact ⟨hf, (Except.ok.inj he).symm⟩
    · exact absurd he (by simp)
  unfold makeFoldersUpTo at h
  split at h
  · rename_i hp
    exact Or.inl ⟨hp, (Except.ok.inj h).symm⟩
  · refine Or.inr ?_
    split at h
    · rename_i e hm
      exact ⟨d, Or.inl rfl, Or.inl (hm.trans h)⟩
    · split at h
      · exact absurd h (by simp)
      · rename_i above hparent
        obtain ⟨e, hup, h⟩ := bind_ok h
        refine ⟨e, Or.inr ⟨above, hparent, hup⟩, ?_⟩
        split at h
        · rename_i e' hm
          exact Or.inl (hm.trans h)
        · exact Or.inr (hthere h)
    · exact ⟨d, Or.inl rfl, Or.inr (hthere h)⟩

theorem extended_makeFoldersUpTo {n : Nat} {path : Path}
    (h : makeFoldersUpTo n d path = .ok d') : Extended d d' := by
  induction n generalizing d' path with
  | zero => exact absurd h (by simp [makeFoldersUpTo])
  | succ n ih =>
    rcases makeFoldersUpTo_ok h with ⟨-, rfl⟩ | ⟨e, he, hlast⟩
    · exact .refl d'
    · have hup : Extended d e := by
        rcases he with rfl | ⟨above, -, he⟩
        · exact .refl e
        · exact ih he
      rcases hlast with hm | ⟨-, rfl⟩
      · obtain ⟨-, p, -, hn, rfl⟩ := makeFolder_ok hm
        exact hup.trans (extended_put hn)
      · exact hup

/-- Making folders adds folders and nothing else. -/
theorem extended_makeFolders {path : Path} (h : d.makeFolders path = .ok d') : Extended d d' :=
  extended_makeFoldersUpTo h

theorem grown_makeFolders {path : Path} (h : d.makeFolders path = .ok d') : Grown d d' :=
  (extended_makeFolders h).toGrown

/-! ## 2. Folders made again -/

theorem hasFolder_iff {path : Path} : d.hasFolder path = true ↔
    ∃ p, d.locate path = .ok p ∧ d.node? p = some .folder := by
  unfold hasFolder
  constructor
  · intro h
    split at h
    · rename_i p hf
      exact ⟨p, find_eq_ok.1 hf⟩
    · exact Bool.noConfusion h
  · rintro ⟨p, hp⟩
    rw [find_eq_ok.2 hp]

-- Slashes at the end say nothing behind a folder.
theorem walk_slashes {o p : Place} {b w : Text} (hw : ∀ c ∈ w, c = '/')
    (hp : d.node? p = some .folder) :
    d.walk o (splitOn '/' (b ++ w)) = .ok p ↔ d.walk o (splitOn '/' b) = .ok p := by
  induction w using List.reverseRecOn with
  | nil => rw [List.append_nil]
  | append_singleton w c ih =>
    obtain rfl : c = '/' := hw c (by simp)
    have hidle : Path.isIdle '.' ([] : Text) = true := by decide
    rw [← ih fun c hc => hw c (List.mem_append_left _ hc), ← List.append_assoc,
      Path.splitOn_append_slash]
    constructor
    · intro h
      obtain ⟨q, hq, h⟩ := walk_append_ok h
      obtain ⟨k, hk, h⟩ := walk_cons_ok h
      rw [walk_nil, Except.ok.injEq] at h
      rw [hq, ← follow_empty hk, h]
    · intro h
      rw [walk_append, h]
      show d.walk p [[]] = _
      rw [walk_cons, follow_idle hidle hp]
      rfl

/-- A path leads to a folder with slashes at its end and without. -/
theorem locate_bare {path : Path} {p : Place} (hb : bare path ≠ [])
    (hl : Encoding.utf8Length path ≤ longestPath) (hp : d.node? p = some .folder) :
    d.locate path = .ok p ↔ d.locate (bare path) = .ok p := by
  obtain ⟨w, hw, hall⟩ := exists_dropEndWhile (· == '/') path
  have hw : path = bare path ++ w := hw
  have hall : ∀ c ∈ w, c = '/' := fun c hc => by simpa using hall c hc
  have hnul : '\x00' ∉ path ↔ '\x00' ∉ bare path := by
    have hend : '\x00' ∉ w := fun hm => absurd (hall _ hm) (by decide)
    conv_lhs => rw [hw]
    simp [hend]
  have hshort : Encoding.utf8Length (bare path) ≤ longestPath := by
    rw [hw, Encoding.utf8Length_append] at hl
    omega
  have hne : path ≠ [] := by
    intro he
    rw [he] at hb
    exact hb rfl
  have horigin : d.origin path = d.origin (bare path) := by
    obtain ⟨x, r, hx⟩ := List.exists_cons_of_ne_nil hb
    unfold origin Path.isAbsolute
    conv_lhs => rw [hw, hx]
    rw [hx]
    rfl
  have hwalk := walk_slashes (d := d) (o := d.origin (bare path)) (b := bare path) hall hp
  rw [← hw] at hwalk
  rw [locate_eq_ok, locate_eq_ok, horigin, hwalk]
  simp only [hnul, ne_eq, hne, hb, hl, hshort, not_false_eq_true, true_and]

theorem hasFolder_makeFolder {path : Path} (h : d.makeFolder path = .ok d') :
    d'.hasFolder path = true := by
  obtain ⟨hl, p, hp, hn, rfl⟩ := makeFolder_ok h
  have hne : p ≠ [] := by
    rintro rfl
    rw [node?_nil] at hn
    exact absurd hn (by simp)
  have hfolder := node?_put_self d hne (named_locate hp) .folder
  have hp' := (grown_put hn .folder).more.locate_of_ok hp
  exact hasFolder_iff.2 ⟨p, (locate_bare (locate_eq_ok.1 hp).2.1 hl hfolder).2 hp', hfolder⟩

/-- A folder that has been made is there. -/
theorem hasFolder_makeFolders {path : Path} (h : d.makeFolders path = .ok d') :
    path = [] ∨ d'.hasFolder path = true := by
  rcases makeFoldersUpTo_ok h with ⟨hp, -⟩ | ⟨e, -, hm | ⟨hf, rfl⟩⟩
  · exact Or.inl hp
  · exact Or.inr (hasFolder_makeFolder hm)
  · exact Or.inr hf

theorem makeFolder_of_hasFolder {path : Path} (h : d.hasFolder path = true) :
    d.makeFolder path = .error .taken := by
  obtain ⟨p, hp, hfolder⟩ := hasFolder_iff.1 h
  have hl := (locate_eq_ok.1 hp).2.2.1
  unfold makeFolder
  rw [if_neg (by omega)]
  split
  · rfl
  · rename_i hb
    have hne := (locate_eq_ok.1 hp).2.1
    rw [(locate_bare (fun he => hb ⟨hne, he⟩) hl hfolder).1 hp]
    simp only [bind, Except.bind, hfolder]

/-- Where a folder is there already, nothing is made. -/
theorem makeFolders_of_hasFolder {path : Path} (h : path = [] ∨ d.hasFolder path = true) :
    d.makeFolders path = .ok d := by
  unfold makeFolders makeFoldersUpTo
  rcases h with rfl | h
  · rfl
  · split
    · rfl
    · rw [makeFolder_of_hasFolder h]

/-! ## 3. Files below folders -/

/-- Everything on the disk stands in a folder. -/
def Grounded (d : Disk) : Prop :=
  ∀ p name, d.node? (p ++ [name]) ≠ none → d.node? p = some .folder

theorem mem_of_node? {p : Place} (hp : p ≠ []) (h : d.node? p ≠ none) : ∃ n ∈ d.nodes, n.1 = p := by
  obtain ⟨n, hn⟩ := Option.ne_none_iff_exists'.1 h
  unfold node? at hn
  rw [if_neg hp, Option.map_eq_some_iff] at hn
  obtain ⟨m, hm, -⟩ := hn
  exact ⟨m, List.mem_of_find?_eq_some hm, by simpa using List.find?_some hm⟩

theorem grounded_of_nodes (h : ∀ n ∈ d.nodes, d.node? n.1.dropLast = some .folder) :
    Grounded d := by
  intro p name hn
  obtain ⟨n, hm, he⟩ := mem_of_node? (by simp) hn
  have hfolder := h n hm
  rwa [he, List.dropLast_concat] at hfolder

theorem node?_eq_none_of_nodes {r : Place} (h : ∀ n ∈ d.nodes, n.1 ≠ [] → n.1.dropLast ≠ r)
    (name : Text) : d.node? (r ++ [name]) = none := by
  by_contra hn
  obtain ⟨n, hm, he⟩ := mem_of_node? (by simp) hn
  have hne := h n hm
  rw [he, List.dropLast_concat] at hne
  exact hne (by simp) rfl

theorem Grounded.folder_of_append (hg : Grounded d) {p r : Place} (hr : r ≠ [])
    (h : d.node? (p ++ r) ≠ none) : d.node? p = some .folder := by
  induction r using List.reverseRecOn with
  | nil => exact absurd rfl hr
  | append_singleton s name ih =>
    rw [← List.append_assoc] at h
    have hs := hg (p ++ s) name h
    by_cases he : s = []
    · rwa [he, List.append_nil] at hs
    · exact ih he (by simp [hs])

-- Names lead from a folder to what stands below it alike on disks that share the folders.
theorem MoreFolders.walk_eq (h : MoreFolders d d') (hg : Grounded d) {p : Place} {ns : List Text}
    (hns : ns.all Path.isName = true) (hp : d.node? (p ++ ns) ≠ none) :
    d'.walk p ns = d.walk p ns := by
  induction ns generalizing p with
  | nil => rfl
  | cons name r ih =>
    rw [List.all_cons, Bool.and_eq_true] at hns
    have hfolder := hg.folder_of_append (List.cons_ne_nil name r) hp
    rw [walk_cons, walk_cons, h.follow_eq hfolder]
    cases hf : d.follow p name with
    | error x => rfl
    | ok q =>
      obtain rfl := follow_name hns.1 hf
      rw [List.append_cons] at hp
      exact ih hns.2 hp

/-- A file below a folder is found alike on a disk that has grown and kept it. -/
theorem MoreFolders.find_below (h : MoreFolders d d') (hg : Grounded d) {root : Path}
    {r p : Place} (hr : d.locate root = .ok r) (hne : p ≠ []) (hp : p.all Path.isName = true)
    {n : Node} (hn : d.node? (r ++ p) = some n) (hn' : d'.node? (r ++ p) = some n) :
    d'.find (Path.append root (relativePath p)) = d.find (Path.append root (relativePath p)) := by
  have hrel := Path.not_isAbsolute_relativePath hp
  have hroot := walk_leadingSteps hr
  have hstart : d'.origin root = d.origin root := by
    unfold origin
    rw [h.start]
  -- behind the root the names lead through folders that both disks have
  have hwalk : d'.walk (d'.origin (Path.append root (relativePath p)))
        (splitOn '/' (Path.append root (relativePath p))) =
      d.walk (d.origin (Path.append root (relativePath p)))
        (splitOn '/' (Path.append root (relativePath p))) := by
    rw [origin_append root hrel, origin_append root hrel, hstart, Path.splitOn_append root hrel,
      Path.splitOn_relativePath hne hp, walk_append, walk_append, hroot, h.walk_of_ok hroot]
    exact h.walk_eq hg hp (by simp [hn])
  have hlocate : d'.locate (Path.append root (relativePath p)) =
      d.locate (Path.append root (relativePath p)) := by
    unfold locate
    split
    · rfl
    · split
      · rfl
      · split
        · rfl
        · exact hwalk
  unfold find
  rw [hlocate]
  cases hl : d.locate (Path.append root (relativePath p)) with
  | error x => rfl
  | ok q =>
    obtain rfl := locate_append hr hne hp hl
    simp only [bind, Except.bind, hn, hn']

/-! ## 4. Writing into a folder -/

/-- The second disk has the folders of the first, and it differs in files at places in `S` only. -/
structure Filled (S : Place → Prop) (d d' : Disk) : Prop extends SameFolders d d' where
  kept : ∀ p, ¬ S p → d'.node? p = d.node? p

namespace Filled

variable {S T : Place → Prop}

theorem refl (d : Disk) : Filled S d d := ⟨.refl d, fun _ _ => rfl⟩

theorem mono (h : Filled S d d') (hs : ∀ p, S p → T p) : Filled T d d' :=
  ⟨h.toSameFolders, fun p hp => h.kept p fun hn => hp (hs p hn)⟩

theorem trans (h : Filled S d d') (h' : Filled S d' d'') : Filled S d d'' :=
  ⟨h.toSameFolders.trans h'.toSameFolders, fun p hp => (h'.kept p hp).trans (h.kept p hp)⟩

-- Files at places where nothing was take nothing away.
theorem grown (h : Filled S d d') (hs : ∀ p, S p → d.node? p = none) : Grown d d' := by
  refine ⟨h.start, fun p n hp => ?_⟩
  have hn : ¬ S p := by
    intro hsp
    rw [hs p hsp] at hp
    exact absurd hp (by simp)
  rw [h.kept p hn, hp]

end Filled

/-- What can be a file in a folder: a name without a slash that is not too long, also behind the path
of the folder. -/
structure Writable (out file : Path) : Prop where
  slash : '/' ∉ file
  nul : '\x00' ∉ file
  name : Encoding.utf8Length file ≤ longestName
  path : Encoding.utf8Length (Path.append out file) ≤ longestPath

instance (out file : Path) : Decidable (Writable out file) :=
  decidable_of_iff ('/' ∉ file ∧ '\x00' ∉ file ∧ Encoding.utf8Length file ≤ longestName ∧
      Encoding.utf8Length (Path.append out file) ≤ longestPath)
    ⟨fun h => ⟨h.1, h.2.1, h.2.2.1, h.2.2.2⟩, fun h => ⟨h.slash, h.nul, h.name, h.path⟩⟩

/-- A path leads to a folder that has no folders in it. -/
structure Shelf (d : Disk) (out : Path) (r : Place) : Prop where
  locate : d.locate out = .ok r
  folder : d.node? r = some .folder
  inner : ∀ name, d.node? (r ++ [name]) ≠ some .folder

namespace Shelf

variable {out file : Path} {r : Place}

theorem of_same (h : Shelf d out r) (hs : SameFolders d d') : Shelf d' out r where
  locate := hs.locate_of_ok h.locate
  folder := (hs.folders r).2 h.folder
  inner name hn := h.inner name ((hs.folders _).1 hn)

section Paths

variable {first : Text} {rest : List Text} (hs : splitOn '/' file = first :: rest)
  (hf : Path.isName first = true)

include hs hf

/-- A path into the folder leads there only by what can be a file in it. -/
theorem locate_append (h : Shelf d out r) {q : Place} :
    d.locate (Path.append out file) = .ok q ↔ Writable out file ∧ q = r ++ [file] := by
  have habs := Path.not_isAbsolute_of_first hs hf
  have hroot := walk_leadingSteps h.locate
  obtain ⟨front, hfront⟩ := Path.exists_append out file
  constructor
  · intro hq
    obtain ⟨hnul, -, hpath, -⟩ := locate_eq_ok.1 hq
    obtain ⟨k, hk, hw⟩ := locate_append_walk habs hq
    obtain rfl := Except.ok.inj (hroot.symm.trans hk)
    rw [hs] at hw
    obtain ⟨k, hk, hw⟩ := walk_cons_ok hw
    have hname := follow_name hf hk
    -- behind a slash the walk would have to go through a folder
    have hrest : rest = [] := by
      cases rest with
      | nil => rfl
      | cons x s =>
        obtain ⟨m, hm, -⟩ := walk_cons_ok hw
        have hn := (follow_ok hm).1
        rw [hname] at hn
        exact absurd hn (h.inner first)
    have hfile : file = first := by
      have hj := join_splitOn '/' file
      rw [hs, hrest] at hj
      exact hj.symm
    rw [hrest, walk_nil, Except.ok.injEq] at hw
    rw [hfile] at hpath hnul hfront ⊢
    refine ⟨⟨Path.not_mem_of_isName hf, ?_, length_of_follow hf hk, hpath⟩, by rw [← hw, hname]⟩
    intro hm
    rw [hfront] at hnul
    exact hnul (List.mem_append_right front hm)
  · rintro ⟨hw, rfl⟩
    have hfile : first = file := by
      rw [splitOn_of_not_mem hw.slash, List.cons.injEq] at hs
      exact hs.1.symm
    rw [hfile] at hf
    have hnul : '\x00' ∉ Path.append out file := by
      intro hm
      rcases Path.mem_append out habs hm with hm | hm | hm
      · exact (locate_eq_ok.1 h.locate).1 hm
      · exact absurd hm (by decide)
      · exact hw.nul hm
    have hne : Path.append out file ≠ [] := by
      rw [hfront]
      exact List.append_ne_nil_of_right_ne_nil front (Path.ne_nil_of_isName hf)
    refine locate_eq_ok.2 ⟨hnul, hne, hw.path, ?_⟩
    rw [origin_append out habs, Path.splitOn_append out habs, walk_append, hroot,
      splitOn_of_not_mem hw.slash]
    show d.walk r [file] = _
    rw [walk_cons, follow_of_name hf h.folder hw.name]
    rfl

theorem has_append (h : Shelf d out r) : d.has (Path.append out file) = true ↔
    Writable out file ∧ d.node? (r ++ [file]) ≠ none := by
  rw [has_iff]
  constructor
  · rintro ⟨q, n, hq, hn⟩
    obtain ⟨hw, rfl⟩ := (h.locate_append hs hf).1 hq
    exact ⟨hw, by simp [hn]⟩
  · rintro ⟨hw, hn⟩
    obtain ⟨n, hn⟩ := Option.ne_none_iff_exists'.1 hn
    exact ⟨_, n, (h.locate_append hs hf).2 ⟨hw, rfl⟩, hn⟩

/-- What can be a file in the folder can be written, and nothing else changes. -/
theorem write_append (h : Shelf d out r) (hw : Writable out file) (bytes : Bytes) :
    ∃ d', d.write (Path.append out file) bytes = .ok d' ∧ Filled (· = r ++ [file]) d d' ∧
      d'.node? (r ++ [file]) = some (.file bytes) := by
  have hq := (h.locate_append hs hf).2 ⟨hw, rfl⟩
  have hne : file ≠ [] := by
    rintro rfl
    rw [splitOn_nil, List.cons.injEq] at hs
    exact Path.ne_nil_of_isName hf hs.1.symm
  have hbare : bare (Path.append out file) = Path.append out file := by
    obtain ⟨front, he⟩ := Path.exists_append out file
    apply dropEndWhile_eq_self
    intro c hc
    rw [he, List.getLast?_append_of_ne_nil front hne] at hc
    have hm : c ∈ file := List.mem_of_getLast? hc
    simp only [beq_eq_false_iff_ne]
    exact fun hslash => hw.slash (hslash ▸ hm)
  obtain ⟨d', hd⟩ : ∃ d', d.write (Path.append out file) bytes = .ok d' := by
    unfold write
    rw [hbare, if_neg (fun hn => hn.1 hn.2), hq]
    simp only [bind, Except.bind, ne_eq, not_true_eq_false, if_false]
    split
    · rename_i hn
      exact absurd hn (h.inner file)
    · exact ⟨_, rfl⟩
  obtain ⟨p, hp, hsame, hn, hother⟩ := sameFolders_write hd
  obtain rfl := Except.ok.inj (hq.symm.trans hp)
  exact ⟨d', hd, ⟨hsame, fun q hq => hother q hq⟩, hn⟩

end Paths

end Shelf

end Baselines.Disk
