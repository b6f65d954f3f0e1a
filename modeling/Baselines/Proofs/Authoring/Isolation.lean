import Baselines.Proofs.Authoring.Folder

/-!
# One source among others

In an authoring into an empty folder each source fares as it does alone, as long as no two sources
have baselines of one name. Nothing but the name of a baseline can stop the run: one that cannot be a
file in the folder.
-/

namespace Baselines.Authoring

open Disk

variable {σ : Type} {a : Authoring} {e : Emitter σ} {R : σ → σ → Prop} {d d' d₁ : Disk} {r : Place}

/-! ## 1. Runs into an empty folder -/

/-- The sources are indexed, and the folder for the baselines can be made and is empty then. -/
structure Ready (a : Authoring) (d : Disk) (index : SourceIndex) (d₁ : Disk) (r : Place) : Prop where
  grounded : Grounded d
  indexed : SourceIndex.build d a.sources = .ok index
  made : d.makeFolders a.out = .ok d₁
  place : d₁.locate a.out = .ok r
  folder : d₁.node? r = some .folder
  empty : ∀ name, d₁.node? (r ++ [name]) = none

section Ready

variable {index : SourceIndex} {entry : Text × Path}

theorem Ready.shelf (h : Ready a d index d₁ r) : Shelf d₁ a.out r := by
  refine ⟨h.place, h.folder, fun name hn => ?_⟩
  rw [h.empty name] at hn
  exact absurd hn (by simp)

theorem Ready.plain (h : Ready a d index d₁ r) (he : entry ∈ index) :
    ∀ j ∈ a.jobsOf d entry, a.Plain j := by
  intro j hj
  obtain ⟨source, -, hj⟩ := mem_jobsOf hj
  exact ⟨entry.1, source, hj, SourceIndex.slash_not_mem h.indexed he⟩

-- The place is that of something in the folder.
def Within (r : Place) (p : Place) : Prop := ∃ name, p = r ++ [name]

theorem Taken.within {js : List Job} {p : Place} (h : Taken r js p) : Within r p := by
  obtain ⟨j, -, hp⟩ := h
  exact ⟨j.name.render, hp⟩

theorem Ready.loadSource (h : Ready a d index d₁ r) (he : entry ∈ index)
    (hd : Filled (Within r) d₁ d') : loadSource d' entry.2 = Authoring.loadSource d entry.2 := by
  apply loadSource_grown h.grounded h.indexed he
  apply (grown_makeFolders h.made).trans (hd.grown _)
  rintro p ⟨name, rfl⟩
  exact h.empty name

theorem Ready.turn (h : Ready a d index d₁ r) (he : entry ∈ index) {u : σ × Disk}
    (hu : Filled (Within r) d₁ u.2) : Turn a d r entry u :=
  ⟨h.plain he, h.shelf.of_same hu.toSameFolders, h.loadSource he hu⟩

theorem Ready.run (h : Ready a d index d₁ r) (m : σ) :
    a.run e (m, d) = a.runSources e index {} (m, d₁) :=
  run_of_index (s := (m, d)) h.indexed h.made

end Ready

/-- The entries, each with the memory of the emitter when its turn comes. -/
def turns (a : Authoring) (e : Emitter σ) :
    List (Text × Path) → Summary → σ × Disk → List ((Text × Path) × σ)
  | [], _, _ => []
  | entry :: r, t, s => (entry, s.1) ::
    match a.runSource e t entry s with
    | (.ok t, s) => turns a e r t s
    | (.error _, _) => []

/-- Alone, the source does the part that it has in a run: on every disk where it is the only source,
with the same text, and from every memory from which the emitter answers alike. The files that it has
written there have the bytes that they have after the run. -/
def Isolated (a : Authoring) (e : Emitter σ) (R : σ → σ → Prop) (d : Disk) (entry : Text × Path)
    (part : Summary) (m : σ) (after : Disk) : Prop :=
  ∀ m' d' d₁ r, R m m' → Ready a d' [entry] d₁ r → d'.readText entry.2 = d.readText entry.2 →
    ∃ s, a.run e (m', d') = (.ok part, s) ∧
      ∀ path ∈ part.written, ∃ bytes, after.read path = .ok bytes ∧ s.2.read path = .ok bytes

section Runs

variable {index : SourceIndex} {t t' : Summary} {u u' : σ × Disk}

/-- One source of a run: what it adds is what it does alone. -/
theorem isolated_runSource (he : e.Alike R) {entry : Text × Path} {after : Disk}
    (hturn : Turn a d r entry u)
    (hfresh : ∀ j ∈ a.jobsOf d entry, u.2.node? (r ++ [j.name.render]) = none)
    (hr : a.runSource e t entry u = (.ok t', u')) (hafter : Shelf after a.out r)
    (hkept : ∀ j ∈ a.jobsOf d entry,
      after.node? (r ++ [j.name.render]) = u'.2.node? (r ++ [j.name.render])) :
    ∃ part : Summary, t' = t.append part ∧ Isolated a e R d entry part u.1 after := by
  have hp := hturn.plain
  obtain ⟨part, ht, hpart, hthen⟩ := adds_runSource he hp hturn.load hr
  refine ⟨part, ht, fun m' d' d₁ r' hm hready htext => ?_⟩
  have hload : loadSource d₁ entry.2 = loadSource d entry.2 := by
    rw [hready.loadSource List.mem_cons_self (.refl d₁), loadSource_congr htext]
  have htwin : Twin a R r r' (a.jobsOf d entry) u (m', d₁) :=
    ⟨hm, hturn.shelf, hready.shelf, fun j hj => by rw [hfresh j hj, hready.empty]⟩
  obtain ⟨v, hv, hafter'⟩ := hthen r r' (m', d₁) htwin hload
  have halone : a.runSources e [entry] {} (m', d₁) = (.ok part, v) := by
    rw [runSources, hv {}, Summary.empty_append]
    rfl
  refine ⟨v, by rw [hready.run, halone], fun path hpath => ?_⟩
  -- the file that was written alone has its twin in the run, where it has stayed
  obtain ⟨j, hj, rfl⟩ := hpart path hpath
  obtain ⟨q, bytes, hq⟩ := hasFile_iff.1 (hasFile_runSources he.disk halone j.path hpath)
  obtain ⟨hlocate, hn⟩ := find_eq_ok.1 hq
  obtain ⟨hfits, rfl⟩ := (locate_job (hp j hj) hafter'.right).1 hlocate
  refine ⟨bytes, read_eq_ok.2 ⟨r ++ [j.name.render], ?_, ?_⟩, read_eq_ok.2 ⟨_, hlocate, hn⟩⟩
  · exact (locate_job (hp j hj) hafter).2 ⟨hfits, rfl⟩
  · rw [hkept j hj, hafter'.same j hj, hn]

theorem turns_cons {entry : Text × Path} {rest : List (Text × Path)} {t₁ : Summary} {u₁ : σ × Disk}
    (h : a.runSource e t entry u = (.ok t₁, u₁)) :
    a.turns e (entry :: rest) t u = (entry, u.1) :: a.turns e rest t₁ u₁ := by
  rw [turns, h]

-- In a run that ends well every entry has its turn.
theorem turns_map_fst {rest : List (Text × Path)} (hr : a.runSources e rest t u = (.ok t', u')) :
    (a.turns e rest t u).map (·.1) = rest := by
  induction rest generalizing t u with
  | nil => rfl
  | cons entry rest ih =>
    obtain ⟨x, hx, -⟩ | ⟨t₁, u₁, hk, hr⟩ := runSources_cons hr
    · exact absurd hx (by simp)
    · rw [turns_cons hk, List.map_cons, ih hr]

/-- The sources of a run, one after the other: those before leave nothing under the names of those
after them, and those after them leave what they have written. -/
theorem isolated_runSources (hready : Ready a d index d₁ r) (he : e.Alike R)
    {rest : List (Text × Path)} (hrest : ∀ entry ∈ rest, entry ∈ index) (hapart : a.Apart d rest)
    (hu : Filled (Within r) d₁ u.2)
    (hfresh : ∀ entry ∈ rest, ∀ j ∈ a.jobsOf d entry, u.2.node? (r ++ [j.name.render]) = none)
    (hr : a.runSources e rest t u = (.ok t', u')) :
    Filled (fun p => ∃ entry ∈ rest, Taken r (a.jobsOf d entry) p) u.2 u'.2 ∧
      ∃ parts : List Summary, t' = parts.foldl Summary.append t ∧
        List.Forall₂ (fun x part => Isolated a e R d x.1 part x.2 u'.2)
          (a.turns e rest t u) parts := by
  induction rest generalizing t u with
  | nil =>
    obtain ⟨ht, rfl⟩ := Prod.mk.inj hr
    exact ⟨.refl u.2, [], (Except.ok.inj ht).symm, List.Forall₂.nil⟩
  | cons entry rest ih =>
    have hturn := hready.turn (hrest entry List.mem_cons_self) hu
    obtain ⟨hnames, hapart⟩ := List.pairwise_cons.1 hapart
    obtain ⟨x, hx, -⟩ | ⟨t₁, u₁, hk, hr⟩ := runSources_cons hr
    · exact absurd hx (by simp)
    · have hfirst := filled_runSource he.disk hturn hk
      have hu₁ := hu.trans (hfirst.mono fun p => Taken.within)
      -- the names of the sources that follow are not taken by this one
      have hfresh₁ : ∀ other ∈ rest, ∀ k ∈ a.jobsOf d other,
          u₁.2.node? (r ++ [k.name.render]) = none := by
        intro other hother k hk
        rw [hfirst.kept, hfresh other (List.mem_cons_of_mem _ hother) k hk]
        rintro ⟨j, hj, heq⟩
        have heq : k.name.render = j.name.render := by simpa using heq
        exact hnames other hother j hj k hk heq.symm
      obtain ⟨hthen, parts, ht', hparts⟩ := ih (fun x hx => hrest x (List.mem_cons_of_mem _ hx))
        hapart hu₁ hfresh₁ hr
      have hafter : Shelf u'.2 a.out r :=
        (hready.shelf.of_same hu₁.toSameFolders).of_same hthen.toSameFolders
      have hkept : ∀ j ∈ a.jobsOf d entry,
          u'.2.node? (r ++ [j.name.render]) = u₁.2.node? (r ++ [j.name.render]) := by
        intro j hj
        rw [hthen.kept]
        rintro ⟨other, hother, k, hk, heq⟩
        have heq : j.name.render = k.name.render := by simpa using heq
        exact hnames other hother j hj k hk heq
      obtain ⟨part, ht₁, hpart⟩ := isolated_runSource he hturn (hfresh entry List.mem_cons_self) hk
        hafter hkept
      rw [turns_cons hk]
      refine ⟨?_, part :: parts, by rw [ht', ht₁]; rfl, .cons hpart hparts⟩
      apply (hfirst.mono fun p hp => ⟨entry, List.mem_cons_self, hp⟩).trans
      exact hthen.mono fun p ⟨x, hx, hp⟩ => ⟨x, List.mem_cons_of_mem _ hx, hp⟩

end Runs

/-! ## 2. What stops a run -/

/-- A run stops with the trouble of a job that was answered and cannot be a file in the folder. -/
structure Stops (a : Authoring) (e : Emitter σ) (x : Trouble) (j : Job) : Prop where
  unfit : ¬ a.Fits j
  answered : ∃ u code, (e.emit j.request u).1 = .ok code
  trouble : ∃ fault, x = .unwritable j.path fault

section Stops

variable {js : List Job} {t t' : Summary} {u u' : σ × Disk} {x : Trouble}

theorem stops_runJob (he : ∀ req u, (e.emit req u).2.2 = u.2) {j : Job} (hp : a.Plain j)
    (h : Shelf u.2 a.out r) (hr : a.runJob e t j u = (.error x, u')) : Stops a e x j := by
  have hdoes := does_runJob a e t j u
  have hquiet := he j.request u
  rw [hr] at hdoes
  cases hdoes with
  | @refused code m d fault hs hemit hw =>
    refine ⟨fun hfits => ?_, ⟨u, code, by rw [hemit]⟩, fault, rfl⟩
    rw [hemit] at hquiet
    obtain rfl : d = u.2 := hquiet
    obtain ⟨k, hk, -⟩ := write_job hp h hfits (authoredBytes j.request.file code)
    rw [hw] at hk
    exact absurd hk (by simp)

theorem stops_runJobs (he : ∀ req u, (e.emit req u).2.2 = u.2) (hp : ∀ j ∈ js, a.Plain j)
    (h : Shelf u.2 a.out r) (hr : a.runJobs e js t u = (.error x, u')) :
    ∃ j ∈ js, Stops a e x j := by
  induction js generalizing t u with
  | nil => exact absurd (congrArg Prod.fst hr) (by simp [runJobs])
  | cons j rest ih =>
    have hj := hp j List.mem_cons_self
    obtain ⟨z, hz, hk⟩ | ⟨t₁, u₁, hk, hr⟩ := runJobs_cons hr
    · obtain rfl := Except.error.inj hz
      exact ⟨j, List.mem_cons_self, stops_runJob he hj h hk⟩
    · have hshelf := h.of_same (filled_runJob he hj h hk).toSameFolders
      obtain ⟨k, hk, hstops⟩ := ih (fun k hk => hp k (List.mem_cons_of_mem j hk)) hshelf hr
      exact ⟨k, List.mem_cons_of_mem j hk, hstops⟩

theorem stops_runSources {index : SourceIndex} (hready : Ready a d index d₁ r)
    (he : ∀ req u, (e.emit req u).2.2 = u.2) {rest : List (Text × Path)}
    (hrest : ∀ entry ∈ rest, entry ∈ index) (hu : Filled (Within r) d₁ u.2)
    (hr : a.runSources e rest t u = (.error x, u')) :
    ∃ entry ∈ rest, ∃ j ∈ a.jobsOf d entry, Stops a e x j := by
  induction rest generalizing t u with
  | nil => exact absurd (congrArg Prod.fst hr) (by simp [runSources])
  | cons entry rest ih =>
    have hturn := hready.turn (hrest entry List.mem_cons_self) hu
    obtain ⟨z, hz, hk⟩ | ⟨t₁, u₁, hk, hr⟩ := runSources_cons hr
    · obtain rfl := Except.error.inj hz
      refine ⟨entry, List.mem_cons_self, ?_⟩
      rcases runSource_cases a e d entry with ⟨y, -, hrun⟩ | hrun
      · rw [hrun t u hturn.load] at hk
        exact absurd (congrArg Prod.fst hk) (by simp)
      · rw [hrun t u hturn.load] at hk
        exact stops_runJobs he hturn.plain hturn.shelf hk
    · have hfirst := filled_runSource he hturn hk
      obtain ⟨other, hother, hstops⟩ := ih (fun x hx => hrest x (List.mem_cons_of_mem _ hx))
        (hu.trans (hfirst.mono fun p => Taken.within)) hr
      exact ⟨other, List.mem_cons_of_mem _ hother, hstops⟩

variable {answer : Request → Answer}

-- A job that is answered and does not stop the run has been written, or skipped.
theorem fits_runJob (he : e.Functional answer) {j : Job} (hp : a.Plain j) (h : Shelf u.2 a.out r)
    (hr : a.runJob e t j u = (.ok t', u')) (hj : ∃ code, answer j.request = .ok code) : a.Fits j := by
  obtain ⟨code, hcode⟩ := hj
  have hdoes := does_runJob a e t j u
  have hanswer := he.answer j.request u
  have hquiet := he.disk j.request u
  rw [hr] at hdoes
  cases hdoes with
  | skipped hs => exact ((has_job hp h).1 hs.2).1
  | failed hs hemit =>
    rw [hemit, hcode] at hanswer
    exact absurd hanswer (by simp)
  | written hs hemit hw =>
    rw [hemit] at hquiet
    obtain rfl : _ = u.2 := hquiet
    exact fits_of_write hp h hw

theorem fits_runJobs (he : e.Functional answer) (hp : ∀ j ∈ js, a.Plain j)
    (h : Shelf u.2 a.out r) (hr : a.runJobs e js t u = (.ok t', u')) :
    ∀ j ∈ js, (∃ code, answer j.request = .ok code) → a.Fits j := by
  induction js generalizing t u with
  | nil => exact fun j hj => absurd hj List.not_mem_nil
  | cons j rest ih =>
    have hj := hp j List.mem_cons_self
    obtain ⟨x, hx, -⟩ | ⟨t₁, u₁, hk, hr⟩ := runJobs_cons hr
    · exact absurd hx (by simp)
    · have hshelf := h.of_same (filled_runJob he.disk hj h hk).toSameFolders
      have hrest := ih (fun k hk => hp k (List.mem_cons_of_mem j hk)) hshelf hr
      intro i hi hanswer
      rcases List.mem_cons.1 hi with rfl | hi
      · exact fits_runJob he hj h hk hanswer
      · exact hrest i hi hanswer

theorem fits_runSources {index : SourceIndex} (hready : Ready a d index d₁ r)
    (he : e.Functional answer) {rest : List (Text × Path)}
    (hrest : ∀ entry ∈ rest, entry ∈ index) (hu : Filled (Within r) d₁ u.2)
    (hr : a.runSources e rest t u = (.ok t', u')) :
    ∀ entry ∈ rest, ∀ j ∈ a.jobsOf d entry, (∃ code, answer j.request = .ok code) → a.Fits j := by
  induction rest generalizing t u with
  | nil => exact fun entry h => absurd h List.not_mem_nil
  | cons entry rest ih =>
    have hturn := hready.turn (hrest entry List.mem_cons_self) hu
    obtain ⟨x, hx, -⟩ | ⟨t₁, u₁, hk, hr⟩ := runSources_cons hr
    · exact absurd hx (by simp)
    · have hfirst := filled_runSource he.disk hturn hk
      have hthen := ih (fun x hx => hrest x (List.mem_cons_of_mem _ hx))
        (hu.trans (hfirst.mono fun p => Taken.within)) hr
      intro other hother j hj hanswer
      rcases List.mem_cons.1 hother with rfl | hother
      · rcases runSource_cases a e d other with ⟨y, hjobs, -⟩ | hrun
        · rw [hjobs] at hj
          exact absurd hj List.not_mem_nil
        · rw [hrun t u hturn.load] at hk
          exact fits_runJobs he hturn.plain hturn.shelf hk j hj hanswer
      · exact hthen other hother j hj hanswer

end Stops

/-- An authoring into an empty folder. What stops it is the trouble of a job that was answered and
whose baseline cannot be a file in the folder; with an emitter whose answers depend on the requests
only, it ends well exactly when there is no such job. It is made of parts, one for each source in
turn, and each is what the source does alone, from the memory that the emitter has at its turn, when
no two sources have baselines of one name, as when no test has an opening parenthesis in its name. -/
theorem run_isolated {index : SourceIndex} (h : Ready a d index d₁ r) (e : Emitter σ) (m : σ) :
    ((∀ req u, (e.emit req u).2.2 = u.2) → ∀ x s, a.run e (m, d) = (.error x, s) →
      ∃ entry ∈ index, ∃ j ∈ a.jobsOf d entry, Stops a e x j) ∧
    (∀ answer, e.Functional answer → ((∃ t s, a.run e (m, d) = (.ok t, s)) ↔
      ∀ entry ∈ index, ∀ j ∈ a.jobsOf d entry,
        (∃ code, answer j.request = .ok code) → a.Fits j)) ∧
    (∀ R, e.Alike R → a.Apart d index → ∀ t s, a.run e (m, d) = (.ok t, s) →
      (a.turns e index {} (m, d₁)).map (·.1) = index ∧
      ∃ parts, t = Summary.joined parts ∧
        List.Forall₂ (fun x part => Isolated a e R d x.1 part x.2 s.2)
          (a.turns e index {} (m, d₁)) parts) ∧
    ((∀ entry ∈ index, '(' ∉ entry.1) → a.Apart d index) := by
  have hall : ∀ entry ∈ index, entry ∈ index := fun _ he => he
  have hstart : Filled (Within r) d₁ ((m, d₁) : σ × Disk).2 := .refl d₁
  have hstops : (∀ req u, (e.emit req u).2.2 = u.2) → ∀ x s, a.run e (m, d) = (.error x, s) →
      ∃ entry ∈ index, ∃ j ∈ a.jobsOf d entry, Stops a e x j := by
    intro he x s hr
    rw [h.run] at hr
    exact stops_runSources h he hall hstart hr
  refine ⟨hstops, fun answer he => ⟨?_, fun hfits => ?_⟩, fun R he hapart t s hr => ?_,
    apart_of_tests h.indexed⟩
  · rintro ⟨t, s, hr⟩
    rw [h.run] at hr
    exact fits_runSources h he hall hstart hr
  · rcases hr : a.run e (m, d) with ⟨x, s⟩
    cases x with
    | ok t => exact ⟨t, s, rfl⟩
    | error x =>
      obtain ⟨entry, hentry, j, hj, hunfit, ⟨u, code, hanswer⟩, -⟩ := hstops he.disk x s hr
      rw [he.answer] at hanswer
      exact absurd (hfits entry hentry j hj ⟨code, hanswer⟩) hunfit
  · rw [h.run] at hr
    exact ⟨turns_map_fst hr, (isolated_runSources h he hall hapart hstart
      (fun entry _ j _ => h.empty j.name.render) hr).2⟩

/-! ## 3. Two sources -/

-- A folder with one source, and an empty one.
def loneSources : Disk where
  nodes :=
    [(["o".toList], .folder), (["s".toList], .folder),
      (["s".toList, "b.ts".toList], .file (Encoding.utf8Encode "let b;\n".toList))]
  distinct := by decide
  named := by decide

def loneIndex : SourceIndex := [("b", "/s/b.ts")]

def loneBaseline : Path := "/o/b(target=es5).1.normal.js"

def pairIndex : SourceIndex := [("a", "/s/a.ts"), ("b", "/s/b.ts")]

-- Another source declares a target that is not known.
def pairSources : Disk where
  nodes :=
    [(["o".toList], .folder), (["s".toList], .folder),
      (["s".toList, "a.ts".toList], .file (Encoding.utf8Encode "// @target: es6, none\n".toList)),
      (["s".toList, "b.ts".toList], .file (Encoding.utf8Encode "let b;\n".toList))]
  distinct := by decide
  named := by decide

-- Another source declares an option with a slash in one of its two values.
def slashedSources : Disk where
  nodes :=
    [(["o".toList], .folder), (["s".toList], .folder),
      (["s".toList, "a.ts".toList], .file (Encoding.utf8Encode "// @paths: x/y, z\n".toList)),
      (["s".toList, "b.ts".toList], .file (Encoding.utf8Encode "let b;\n".toList))]
  distinct := by decide
  named := by decide

theorem ready_of_nodes {d : Disk} {index : SourceIndex}
    (hg : ∀ n ∈ d.nodes, d.node? n.1.dropLast = some .folder)
    (hi : SourceIndex.build d soleAuthoring.sources = .ok index)
    (hm : d.makeFolders soleAuthoring.out = .ok d)
    (hf : d.find soleAuthoring.out = .ok (["o".toList], .folder))
    (hn : ∀ n ∈ d.nodes, n.1 ≠ [] → n.1.dropLast ≠ ["o".toList]) :
    Ready soleAuthoring d index d ["o".toList] := by
  obtain ⟨hl, hfolder⟩ := find_eq_ok.1 hf
  exact ⟨grounded_of_nodes hg, hi, hm, hl, hfolder, node?_eq_none_of_nodes hn⟩

theorem ready_lone : Ready soleAuthoring loneSources loneIndex loneSources ["o".toList] := by
  have hb : SourceIndex.build loneSources soleAuthoring.sources = .ok loneIndex := by
    rw [SourceIndex.build_of_sorted (r := ["s".toList])] <;> decide +kernel
  exact ready_of_nodes (by decide +kernel) hb (by decide +kernel) (by decide +kernel)
    (by decide +kernel)

theorem ready_pair : Ready soleAuthoring pairSources pairIndex pairSources ["o".toList] := by
  have hb : SourceIndex.build pairSources soleAuthoring.sources = .ok pairIndex := by
    rw [SourceIndex.build_of_sorted (r := ["s".toList])] <;> decide +kernel
  exact ready_of_nodes (by decide +kernel) hb (by decide +kernel) (by decide +kernel)
    (by decide +kernel)

theorem ready_slashed :
    Ready soleAuthoring slashedSources pairIndex slashedSources ["o".toList] := by
  have hb : SourceIndex.build slashedSources soleAuthoring.sources = .ok pairIndex := by
    rw [SourceIndex.build_of_sorted (r := ["s".toList])] <;> decide +kernel
  exact ready_of_nodes (by decide +kernel) hb (by decide +kernel) (by decide +kernel)
    (by decide +kernel)

theorem run_isolated_pair :
    Ready soleAuthoring pairSources pairIndex pairSources ["o".toList] ∧
      Ready soleAuthoring loneSources loneIndex loneSources ["o".toList] ∧
      ∃ first second s s',
        soleAuthoring.run (soleEmitter "x") ((), pairSources) =
          (.ok (Summary.joined [first, second]), s) ∧
        soleAuthoring.run (soleEmitter "x") ((), loneSources) = (.ok second, s') ∧
        ∀ path ∈ second.written, ∃ bytes, s.2.read path = .ok bytes ∧ s'.2.read path = .ok bytes := by
  have he : (soleEmitter "x").Functional fun _ => .ok "x".toList :=
    Emitter.functional_ofFunction [] _
  have hfits : ∀ entry ∈ pairIndex, ∀ j ∈ soleAuthoring.jobsOf pairSources entry,
      soleAuthoring.Fits j := by
    decide +kernel
  have htext : loneSources.readText "/s/b.ts" = pairSources.readText "/s/b.ts" := by
    decide +kernel
  obtain ⟨-, hends, hparts, hapart⟩ := run_isolated ready_pair (soleEmitter "x") ()
  obtain ⟨t, s, hr⟩ := (hends _ he).2 fun entry hentry j hj _ => hfits entry hentry j hj
  obtain ⟨hturns, parts, rfl, hall⟩ := hparts _ he.alike (hapart (by decide)) t s hr
  -- there are two turns, and so two parts
  obtain ⟨x, xs, hxs, hx, hrest⟩ := List.map_eq_cons_iff.1 hturns
  obtain ⟨y, ys, rfl, hy, hnone⟩ := List.map_eq_cons_iff.1 hrest
  obtain rfl := List.map_eq_nil_iff.1 hnone
  rw [hxs] at hall
  cases hall with
  | @cons _ first _ _ _ hall =>
    cases hall with
    | @cons _ second _ _ halone hall =>
      cases hall with
      | nil =>
        rw [hy] at halone
        obtain ⟨s', hr', hbytes⟩ := halone () loneSources loneSources _ trivial ready_lone htext
        exact ⟨ready_pair, ready_lone, first, second, s, s', hr, hr', hbytes⟩

/-- A value with a slash in it stops the run before the other source, whose baseline is written when
it is alone. -/
theorem run_isolated_slashed :
    Ready soleAuthoring slashedSources pairIndex slashedSources ["o".toList] ∧
      Ready soleAuthoring loneSources loneIndex loneSources ["o".toList] ∧
      slashedSources.readText "/s/b.ts" = loneSources.readText "/s/b.ts" ∧
      (soleAuthoring.run (soleEmitter "x") ((), slashedSources)).1 =
        .error (.unwritable "/o/a(target=es5,paths=x/y).1.normal.js" .noEntry) ∧
      (soleAuthoring.run (soleEmitter "x") ((), slashedSources)).2.2.hasFile loneBaseline = false ∧
      (soleAuthoring.run (soleEmitter "x") ((), loneSources)).1 =
        .ok { written := [loneBaseline] } := by
  refine ⟨ready_slashed, ready_lone, by decide +kernel, ?_, ?_, ?_⟩
  · rw [ready_slashed.run]
    decide +kernel
  · rw [ready_slashed.run]
    decide +kernel
  · rw [ready_lone.run]
    decide +kernel

end Baselines.Authoring
