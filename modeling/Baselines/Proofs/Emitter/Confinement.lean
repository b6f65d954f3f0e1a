import Baselines.Emitter.Execution
import Baselines.Proofs.Disk.Growth
import Baselines.Proofs.Text.Parts
import Mathlib.Data.List.Induction

/-!
# Where the input of a command is kept

The name of a source may hold any dots and slashes. The path that is made of it holds no step back and
does not start at the root, so from the folder made for a command it leads to a place in that folder,
and whatever is written or made for a request stands on the way there.
-/

namespace Baselines

open Text

/-! ## 1. Parts of texts -/

namespace Text

variable {c u : Char}

theorem head?_replace_pair {y : Char} {t : Text}
    (h : (replace [c, c] [u] (y :: t)).head? = some c) : y = c := by
  by_cases hp : [c, c] <+: y :: t
  · exact (List.cons_prefix_cons.1 hp).1.symm
  · rw [replace_cons hp] at h
    exact Option.some.inj h

/-- Where every two of a character are replaced by another one, no two of it stand together. -/
theorem not_infix_replace_pair (hu : u ≠ c) (t : Text) : ¬ [c, c] <:+: replace [c, c] [u] t := by
  induction t using List.twoStepInduction with
  | nil => simp [replace, replaceFrom]
  | singleton x => simp [replace, replaceFrom, startsWith, dropLead?, List.infix_cons_iff]
  | cons_cons x y r ih ih' =>
    by_cases hp : [c, c] <+: x :: y :: r
    · obtain ⟨w, hw⟩ := hp
      obtain rfl : w = r := (List.cons.inj (List.cons.inj hw).2).2
      rw [← hw, replace_self_append (List.cons_ne_nil _ _), List.singleton_append,
        List.infix_cons_iff]
      rintro (hp | hi)
      · exact hu (List.cons_prefix_cons.1 hp).1.symm
      · exact ih hi
    · rw [replace_cons hp, List.infix_cons_iff]
      rintro (hq | hi)
      · -- the first of the two is the first character, and the second one is the next
        obtain ⟨w, hw⟩ := hq
        have hx : c = x := (List.cons.inj hw).1
        have hy : y = c := head?_replace_pair (t := r) (by rw [← (List.cons.inj hw).2]; rfl)
        rw [← hx, hy] at hp
        exact hp (List.prefix_append [c, c] r)
      · exact ih' y hi

theorem infix_join {α : Type} {sep : List α} {ts : List (List α)} {t : List α} (h : t ∈ ts) :
    t <:+: join sep ts := by
  induction ts with
  | nil => exact absurd h List.not_mem_nil
  | cons u r ih =>
    by_cases hr : r = []
    · rw [hr, List.mem_singleton] at h
      subst hr h
      exact List.infix_rfl
    · rw [join_cons u hr]
      rcases List.mem_cons.1 h with rfl | h
      · exact (List.prefix_append _ _).isInfix
      · exact (ih h).trans ⟨u ++ sep, [], by simp⟩

/-- The pieces of a text are parts of it. -/
theorem infix_of_mem_splitOn {α : Type} [DecidableEq α] {c : α} {t p : List α}
    (h : p ∈ splitOn c t) : p <:+: t := by
  have hp : p <:+: join [c] (splitOn c t) := infix_join h
  rwa [join_splitOn] at hp

end Text

/-! ## 2. Paths without steps back -/

/-- Steps that do not go back lead from a place to one below it, and those that say nothing lead
nowhere else. -/
theorem Place.resolve_forward {steps : List Text} (h : ['.', '.'] ∉ steps) (p : Place) :
    p.resolve steps = p ++ steps.filter fun s => !Path.isIdle '.' s := by
  induction steps generalizing p with
  | nil => simp [Place.resolve]
  | cons s r ih =>
    rw [List.mem_cons, not_or] at h
    have hr := ih h.2
    unfold Place.resolve at hr ⊢
    rw [List.foldl_cons, hr]
    by_cases hs : Path.isIdle '.' s = true
    · rw [if_pos hs, List.filter_cons_of_neg (by simp [hs])]
    · rw [if_neg hs, if_neg (Ne.symm h.1), List.filter_cons_of_pos (by simpa using hs),
        List.append_assoc, List.singleton_append]

namespace Path

/-- A path from the root without steps back, which leads to a place on the way to another one. -/
structure LeadsTowards (p : Place) (path : Path) : Prop where
  absolute : isAbsolute path = true
  forward : ['.', '.'] ∉ splitOn '/' path
  names : ((splitOn '/' path).filter fun s => !isIdle '.' s) <+: p

variable {p : Place} {path above : Path}

-- A path whose steps begin another one leads towards the same place.
theorem LeadsTowards.of_steps {rest : List Text} (h : LeadsTowards p path)
    (ha : isAbsolute above = true) (hs : splitOn '/' path = splitOn '/' above ++ rest) :
    LeadsTowards p above where
  absolute := ha
  forward hm := h.forward (hs ▸ List.mem_append_left rest hm)
  names := by
    have hn := h.names
    rw [hs, List.filter_append] at hn
    exact (List.prefix_append _ _).trans hn

theorem exists_splitOn_append {w : Text} (b : Path) (hw : ∀ c ∈ w, c = '/') :
    ∃ rest, splitOn '/' (b ++ w) = splitOn '/' b ++ rest := by
  induction w using List.reverseRecOn with
  | nil => exact ⟨[], by simp⟩
  | append_singleton w c ih =>
    obtain ⟨rest, hr⟩ := ih fun x hx => hw x (List.mem_append_left _ hx)
    obtain rfl : c = '/' := hw c (by simp)
    exact ⟨rest ++ [[]], by rw [← List.append_assoc, splitOn_append_slash, hr, List.append_assoc]⟩

theorem LeadsTowards.bare (h : LeadsTowards p path) (hb : Disk.bare path ≠ []) :
    LeadsTowards p (Disk.bare path) := by
  obtain ⟨w, hw, hall⟩ := exists_dropEndWhile (· == '/') path
  obtain ⟨rest, hr⟩ := exists_splitOn_append (Disk.bare path) (w := w)
    fun c hc => by simpa using hall c hc
  have hw : path = Disk.bare path ++ w := hw
  rw [← hw] at hr
  refine h.of_steps ?_ hr
  obtain ⟨x, r, hx⟩ := List.exists_cons_of_ne_nil hb
  have ha := h.absolute
  rw [hw, hx] at ha
  rw [hx]
  exact ha

-- What is left of steps when the last ones are dropped begins them.
theorem exists_reverse_append {last : Text} {front steps : List Text} {idle : Text → Bool}
    (h : steps.reverse.dropWhile idle = last :: front) :
    ∃ rest, steps = (front.dropWhile idle).reverse ++ rest := by
  have hsteps : steps.reverse = steps.reverse.takeWhile idle ++
      (last :: (front.takeWhile idle ++ front.dropWhile idle)) := by
    rw [List.takeWhile_append_dropWhile, ← h, List.takeWhile_append_dropWhile]
  refine ⟨(front.takeWhile idle).reverse ++ last :: (steps.reverse.takeWhile idle).reverse, ?_⟩
  have hs := congrArg List.reverse hsteps
  rw [List.reverse_reverse, List.reverse_append, List.reverse_cons, List.reverse_append] at hs
  exact hs.trans (by simp only [List.append_assoc, List.singleton_append])

/-- A path from the root without its last step is one from the root with the same first steps. -/
theorem parent?_eq_some (ha : isAbsolute path = true) (h : path.parent? = some above) :
    above = ['/'] ∨ isAbsolute above = true ∧
      ∃ rest, splitOn '/' path = splitOn '/' above ++ rest := by
  obtain ⟨t, rfl⟩ := List.head?_eq_some_iff.1
    (show path.head? = some '/' by simpa [isAbsolute] using ha)
  unfold parent? at h
  simp only [splitOn_cons_self, List.head?_cons, Option.getD_some] at h
  split at h
  · exact absurd h (by simp)
  · rename_i last front hsteps
    split at h
    · rw [if_pos ha] at h
      exact Or.inl (Option.some.inj h).symm
    · rename_i kept hkept
      right
      obtain ⟨rest, hr⟩ := exists_reverse_append hsteps
      have hidle := List.head?_dropWhile_not (isIdle '.') front
      generalize front.dropWhile (isIdle '.') = kept at h hkept hr hidle
      obtain rfl := Option.some.inj h
      obtain ⟨first, names, hk⟩ := List.exists_cons_of_ne_nil
        (List.reverse_ne_nil_iff.2 hkept)
      rw [hk, List.cons_append, List.cons.injEq] at hr
      -- the first step is empty, so what was kept has another one behind it
      have hnames : names ≠ [] := by
        rintro rfl
        have hkept : kept = [[]] := by rw [← kept.reverse_reverse, hk, ← hr.1]; rfl
        rw [hkept] at hidle
        exact Bool.noConfusion hidle
      have hslash : ∀ s ∈ first :: names, '/' ∉ s := by
        rw [← hr.1]
        intro s hs
        rcases List.mem_cons.1 hs with rfl | hs
        · exact List.not_mem_nil
        · exact not_mem_of_mem_splitOn (hr.2 ▸ List.mem_append_left rest hs)
      rw [hk, splitOn_join (List.cons_ne_nil _ _) hslash, splitOn_cons_self, hr.2,
        join_cons _ hnames, ← hr.1]
      exact ⟨rfl, rest, rfl⟩

theorem LeadsTowards.parent (h : LeadsTowards p path) (hp : path.parent? = some above) :
    LeadsTowards p above := by
  rcases parent?_eq_some h.absolute hp with rfl | ⟨ha, rest, hr⟩
  · exact ⟨rfl, by decide, List.nil_prefix⟩
  · exact h.of_steps ha hr

end Path

/-! ## 3. Folders on the way to a place -/

namespace Disk

variable {d d' d'' : Disk} {p q : Place} {path : Path}

theorem prefix_of_leadsTowards (h : Path.LeadsTowards p path) (hq : d.locate path = .ok q) :
    q <+: p := by
  rw [walk_resolve (locate_ok hq).2, origin, if_pos h.absolute, Place.resolve_forward h.forward]
  exact h.names

-- Where a path from the root leads does not depend on the folder that other paths start from.
theorem locate_start (d : Disk) (s : Place) (h : Path.isAbsolute path = true) :
    { d with start := s }.locate path = d.locate path := by
  unfold locate
  rw [if_pos h, if_pos h]
  rfl

/-- The second disk is the first but for what stands on the way to a place. -/
def ChangedTowards (p : Place) (d d' : Disk) : Prop := ∀ k, ¬ k <+: p → d'.node? k = d.node? k

theorem ChangedTowards.refl (p : Place) (d : Disk) : ChangedTowards p d d := fun _ _ => rfl

theorem ChangedTowards.trans (h : ChangedTowards p d d') (h' : ChangedTowards p d' d'') :
    ChangedTowards p d d'' := fun k hk => (h' k hk).trans (h k hk)

theorem changedTowards_put (h : q <+: p) (n : Node) : ChangedTowards p d (d.put q n) :=
  fun k hk => node?_put_ne d (fun he : k = q => hk (he.symm ▸ h)) n

theorem changedTowards_makeFolder (h : Path.LeadsTowards p path)
    (hd : d.makeFolder path = .ok d') : ChangedTowards p d d' := by
  obtain ⟨-, q, hq, -, rfl⟩ := makeFolder_ok hd
  exact changedTowards_put (prefix_of_leadsTowards (h.bare (locate_ok hq).1) hq) .folder

theorem changedTowards_makeFoldersUpTo {n : Nat} (h : path = [] ∨ Path.LeadsTowards p path)
    (hd : makeFoldersUpTo n d path = .ok d') : ChangedTowards p d d' := by
  induction n generalizing d' path with
  | zero => exact absurd hd (by simp [makeFoldersUpTo])
  | succ n ih =>
    rcases h with rfl | h
    · obtain rfl : d = d' := Except.ok.inj hd
      exact .refl p d
    · rcases makeFoldersUpTo_ok hd with ⟨-, rfl⟩ | ⟨e, he, hlast⟩
      · exact .refl p d'
      · have hup : ChangedTowards p d e := by
          rcases he with rfl | ⟨above, habove, he⟩
          · exact .refl p e
          · exact ih (Or.inr (h.parent habove)) he
        rcases hlast with hm | ⟨-, rfl⟩
        · exact hup.trans (changedTowards_makeFolder h hm)
        · exact hup

/-- Folders that are made for a path stand on the way to where it leads. -/
theorem changedTowards_makeFolders (h : path = [] ∨ Path.LeadsTowards p path)
    (hd : d.makeFolders path = .ok d') : ChangedTowards p d d' :=
  changedTowards_makeFoldersUpTo h hd

end Disk

/-! ## 4. The input of a command -/

namespace Command

/-- The folder where sources are written, as a place. -/
def workPlace : Place := ["tmp".toList, "emitter".toList]

/-- The place of the file that holds the source of a request: the steps of its path that say
something, below the folder made for it. -/
def inputPlace (r : Request) : Place :=
  workPlace ++ (splitOn '/' (inputPath r)).filter fun s => !Path.isIdle '.' s

variable (r : Request)

theorem not_isAbsolute_inputPath : Path.isAbsolute (inputPath r) = false := by
  unfold Path.isAbsolute
  rw [decide_eq_false_iff_not]
  intro h
  have hd := List.head?_dropWhile_not (fun c : Char => decide (c = '/')) (replace ".." ['_'] r.file)
  rw [show List.dropWhile _ _ = inputPath r from rfl, h] at hd
  simp at hd

-- Neither does a piece of the path hold two dots.
theorem not_mem_inputPath : ['.', '.'] ∉ splitOn '/' (inputPath r) := by
  intro h
  have hsuffix : inputPath r <:+ replace ['.', '.'] ['_'] r.file := List.dropWhile_suffix _
  exact not_infix_replace_pair (by decide) r.file ((infix_of_mem_splitOn h).trans hsuffix.isInfix)

theorem splitOn_inputFile : splitOn '/' (inputFile r) =
    [[], "tmp".toList, "emitter".toList] ++ splitOn '/' (inputPath r) :=
  Path.splitOn_append _ (not_isAbsolute_inputPath r)

theorem leadsTowards_inputFile : Path.LeadsTowards (inputPlace r) (inputFile r) where
  absolute := Path.isAbsolute_append _ (not_isAbsolute_inputPath r)
  forward := by
    rw [splitOn_inputFile, List.mem_append, not_or]
    exact ⟨by decide, not_mem_inputPath r⟩
  names := by
    rw [splitOn_inputFile, List.filter_append]
    exact List.prefix_rfl

theorem locate_inputFile {d : Disk} {q : Place} (h : d.locate (inputFile r) = .ok q) :
    q = inputPlace r := by
  have hl := leadsTowards_inputFile r
  rw [Disk.walk_resolve (Disk.locate_ok h).2, Disk.origin, if_pos hl.absolute,
    Place.resolve_forward hl.forward, splitOn_inputFile, List.filter_append]
  rfl

theorem workPlace_prefix_inputPlace : workPlace <+: inputPlace r := List.prefix_append _ _

theorem leadsTowards_workFolder : Path.LeadsTowards (inputPlace r) workFolder where
  absolute := rfl
  forward := by decide
  names := List.prefix_append _ _

variable {r}

/-- Once a source is written its path leads to its place in the folder made for it, where the command
starts. The source stands there, and nothing has changed but on the way to it. -/
theorem prepare_ok {d d' : Disk} (h : prepare d r = .ok d') :
    d'.start = workPlace ∧ d'.locate (inputFile r) = .ok (inputPlace r) ∧
      d'.node? (inputPlace r) = some (.file (Encoding.utf8Encode r.source)) ∧
      Disk.ChangedTowards (inputPlace r) d d' := by
  unfold prepare at h
  obtain ⟨d₁, h₁, h⟩ := bind_ok h
  obtain ⟨d₂, h₂, h⟩ := bind_ok h
  obtain ⟨d₃, h₃, h⟩ := bind_ok h
  obtain ⟨k, hk, h⟩ := bind_ok h
  obtain rfl := Except.ok.inj h
  obtain ⟨q, hq, hsame, hfile, hothers⟩ := Disk.sameFolders_write h₃
  obtain rfl := locate_inputFile r hq
  have hparent : (inputFile r).parent?.getD [] = [] ∨
      Path.LeadsTowards (inputPlace r) ((inputFile r).parent?.getD []) := by
    cases hp : (inputFile r).parent? with
    | none => exact Or.inl rfl
    | some above => exact Or.inr ((leadsTowards_inputFile r).parent hp)
  have hwritten : Disk.ChangedTowards (inputPlace r) d₂ d₃ := fun j hj =>
    hothers j fun he => hj (he ▸ List.prefix_rfl)
  have hmade := (Disk.changedTowards_makeFolders (Or.inr (leadsTowards_workFolder r)) h₁).trans
    (Disk.changedTowards_makeFolders hparent h₂)
  refine ⟨Disk.walk_resolve (Disk.locate_ok hk).2, ?_, hfile, hmade.trans hwritten⟩
  rw [Disk.locate_start d₃ k (leadsTowards_inputFile r).absolute]
  exact hsame.locate_of_ok hq

/-- Whatever dots and slashes the name of a source has, the path that is made of it does not start at
the root and has no step back. So its steps lead from every place to that place or below it, joined to
the path of a folder it leads on no disk out of the folder, and where the source of a request is
written it stands in the folder made for the command, with nothing changed but on the way to it. -/
theorem inputPath_confined (r : Request) :
    Path.isAbsolute (inputPath r) = false ∧ ['.', '.'] ∉ splitOn '/' (inputPath r) ∧
      (∀ p : Place, p <+: p.resolve (splitOn '/' (inputPath r))) ∧
      (∀ (d : Disk) (folder : Path) (p q : Place), d.locate folder = .ok p →
        d.locate (Path.append folder (inputPath r)) = .ok q → p <+: q) ∧
      ∀ d d' : Disk, prepare d r = .ok d' → d'.start = workPlace ∧ ∃ q, workPlace <+: q ∧
        d'.locate (inputFile r) = .ok q ∧
          d'.node? q = some (.file (Encoding.utf8Encode r.source)) ∧
          ∀ k, ¬ k <+: q → d'.node? k = d.node? k := by
  have habsolute := not_isAbsolute_inputPath r
  have hforward := not_mem_inputPath r
  have hbelow : ∀ p : Place, p <+: p.resolve (splitOn '/' (inputPath r)) := by
    intro p
    rw [Place.resolve_forward hforward]
    exact List.prefix_append _ _
  refine ⟨habsolute, hforward, hbelow, fun d folder p q hp hq => ?_, fun d d' h => ?_⟩
  · obtain ⟨k, hk, -, hw⟩ := Disk.locate_of_append (Disk.locate_ok hp).1 habsolute hq
    obtain rfl : p = k := Except.ok.inj (hp.symm.trans hk)
    rw [Disk.walk_resolve hw]
    exact hbelow p
  · obtain ⟨hstart, hleads, hfile, hrest⟩ := prepare_ok h
    exact ⟨hstart, inputPlace r, workPlace_prefix_inputPlace r, hleads, hfile, hrest⟩

/-- A request for a source whose name begins at the root and goes back. -/
def dotted : Request where
  file := "/...//../a.ts"
  source := "x"
  target := none
  stage := .normal
  options := []

theorem inputPath_confined_dotted :
    inputPath dotted = "_.//_/a.ts".toList ∧
      inputPlace dotted = workPlace ++ ["_.".toList, "_".toList, "a.ts".toList] ∧
      ∃ d' q, prepare {} dotted = .ok d' ∧ workPlace <+: q ∧
        d'.node? q = some (.file (Encoding.utf8Encode "x")) ∧ d'.node? ["etc".toList] = none := by
  have hplace : inputPlace dotted = workPlace ++ ["_.".toList, "_".toList, "a.ts".toList] := by
    decide +kernel
  cases h : prepare {} dotted with
  | error e =>
    have hok : (prepare {} dotted).toOption.isSome = true := by decide +kernel
    rw [h] at hok
    exact Bool.noConfusion hok
  | ok d' =>
    obtain ⟨-, -, -, -, hprepared⟩ := inputPath_confined dotted
    obtain ⟨-, q, hq, -, hfile, hrest⟩ := hprepared {} d' h
    refine ⟨by decide +kernel, hplace, d', q, rfl, hq, hfile, ?_⟩
    obtain ⟨names, rfl⟩ := hq
    exact hrest ["etc".toList] fun hp => absurd (List.cons_prefix_cons.1 hp).1 (by decide)

end Command

end Baselines
