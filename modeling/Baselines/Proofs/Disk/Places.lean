import Baselines.Disk.Basic
import Baselines.Proofs.Text.Pieces

/-!
# Where paths lead

A path that ends in names leads to a place that ends in them, and the names below a folder lead from
it to the place below it.
-/

namespace Baselines

open Text

-- What is done after something else succeeds only where both do.
theorem bind_ok {ε α β : Type} {first : Except ε α} {next : α → Except ε β} {b : β}
    (h : first >>= next = .ok b) : ∃ a, first = .ok a ∧ next a = .ok b := by
  cases first with
  | error e => exact absurd h (by simp [bind, Except.bind])
  | ok a => exact ⟨a, rfl, h⟩

theorem Encoding.utf8Length_append (s t : Text) :
    utf8Length (s ++ t) = utf8Length s + utf8Length t := by
  unfold utf8Length utf8Encode
  rw [List.flatMap_append, List.length_append]

/-! ## 1. Names as steps -/

namespace Path

variable {step : Text}

theorem isName_iff : isName step = true ↔
    isIdle '.' step = false ∧ step ≠ ['.', '.'] ∧ '/' ∉ step := by
  simp [isName, and_assoc]

theorem not_mem_of_isName (h : isName step = true) : '/' ∉ step := (isName_iff.1 h).2.2

theorem ne_nil_of_isName (h : isName step = true) : step ≠ [] := by
  intro he
  rw [he] at h
  exact absurd h (by decide)

-- Names alone make a path that does not start at the root.
theorem not_isAbsolute_relativePath {p : Place} (hp : p.all isName = true) :
    isAbsolute (Disk.relativePath p) = false := by
  unfold Disk.relativePath isAbsolute
  cases p with
  | nil => rfl
  | cons a r =>
    rw [List.all_cons, Bool.and_eq_true] at hp
    cases a with
    | nil => exact absurd rfl (ne_nil_of_isName hp.1)
    | cons x s =>
      have hx : x ≠ '/' := fun he => not_mem_of_isName hp.1 (he ▸ List.mem_cons_self)
      cases r with
      | nil => simp [join, hx]
      | cons b r => simp [join, hx]

theorem splitOn_relativePath {p : Place} (h : p ≠ []) (hp : p.all isName = true) :
    splitOn '/' (Disk.relativePath p) = p :=
  splitOn_join h fun _ ha => not_mem_of_isName (List.all_eq_true.1 hp _ ha)

-- A path that begins with a name does not start at the root.
theorem not_isAbsolute_of_first {p first : Text} {rest : List Text}
    (hs : splitOn '/' p = first :: rest) (hf : isName first = true) : isAbsolute p = false := by
  cases p with
  | nil => rfl
  | cons x r =>
    have hx : x ≠ '/' := by
      rintro rfl
      rw [splitOn_cons_self, List.cons.injEq] at hs
      exact ne_nil_of_isName hf hs.1.symm
    simp [isAbsolute, hx]

-- The steps of a folder that a path below it begins with.
def leadingSteps (base : Path) : List Text :=
  if base = [] then []
  else if base.getLast? = some '/' then (splitOn '/' base).dropLast
  else splitOn '/' base

theorem splitOn_append_slash (b : Text) : splitOn '/' (b ++ ['/']) = splitOn '/' b ++ [[]] :=
  splitOn_append b []

variable {p : Path}

-- A path below a folder has the steps of both.
theorem splitOn_append (base : Path) (hp : isAbsolute p = false) :
    splitOn '/' (append base p) = leadingSteps base ++ splitOn '/' p := by
  unfold append leadingSteps
  rw [hp, if_neg (by decide)]
  by_cases hb : base = []
  · rw [if_pos hb, if_pos hb, List.nil_append]
  · rw [if_neg hb, if_neg hb]
    by_cases hs : base.getLast? = some '/'
    · obtain ⟨b, rfl⟩ := List.getLast?_eq_some_iff.1 hs
      rw [if_pos hs, if_pos hs, splitOn_append_slash, List.dropLast_concat, List.append_assoc,
        List.singleton_append, Text.splitOn_append]
    · rw [if_neg hs, if_neg hs, Text.splitOn_append]

-- Below a folder relative paths that are the same are written the same.
theorem append_inj {base q : Path} (hp : isAbsolute p = false) (hq : isAbsolute q = false)
    (h : append base p = append base q) : p = q := by
  have hsteps := congrArg (splitOn '/') h
  rw [splitOn_append base hp, splitOn_append base hq] at hsteps
  rw [← join_splitOn '/' p, List.append_cancel_left hsteps, join_splitOn]

theorem isAbsolute_append (base : Path) (hp : isAbsolute p = false) :
    isAbsolute (append base p) = isAbsolute base := by
  unfold append
  rw [hp, if_neg (by decide)]
  split
  · rename_i hb
    rw [hb, hp]
    rfl
  · rename_i hb
    obtain ⟨x, r, rfl⟩ := List.exists_cons_of_ne_nil hb
    split
    · rfl
    · rfl

theorem mem_append {c : Char} (base : Path) (hp : isAbsolute p = false) (h : c ∈ append base p) :
    c ∈ base ∨ c = '/' ∨ c ∈ p := by
  unfold append at h
  rw [hp, if_neg (by decide)] at h
  split at h
  · exact Or.inr (Or.inr h)
  · split at h
    · exact (List.mem_append.1 h).imp_right Or.inr
    · exact (List.mem_append.1 h).imp_right List.mem_cons.1

-- A path below a folder ends as it is written.
theorem exists_append (base p : Path) : ∃ front, append base p = front ++ p := by
  unfold append
  split
  · exact ⟨[], rfl⟩
  · split
    · exact ⟨[], rfl⟩
    · split
      · exact ⟨base, rfl⟩
      · exact ⟨base ++ ['/'], by simp⟩

-- A path below a folder begins with the path of the folder.
theorem exists_append_of_ne_nil {base : Path} (hb : base ≠ []) (hp : isAbsolute p = false) :
    ∃ tail, append base p = base ++ tail := by
  unfold append
  rw [hp, if_neg (by decide), if_neg hb]
  split
  · exact ⟨p, rfl⟩
  · exact ⟨'/' :: p, rfl⟩

/-- A path that ends in a name has it as its file name. -/
theorem fileName?_append (base : Path) (hp : isAbsolute p = false) {front : List Text}
    {last : Text} (hs : splitOn '/' p = front ++ [last]) (hlast : isName last = true) :
    fileName? (append base p) = some last := by
  obtain ⟨hidle, hback, -⟩ := isName_iff.1 hlast
  unfold fileName? lastStep?
  rw [splitOn_append base hp, hs, ← List.append_assoc, List.reverse_append,
    List.reverse_singleton, List.singleton_append, List.dropWhile_cons_of_neg (by simp [hidle]),
    List.head?_cons]
  simp [hback]

theorem fileName?_append_relativePath (base : Path) {p : Place} (h : p ≠ [])
    (hp : p.all isName = true) :
    fileName? (append base (Disk.relativePath p)) = p.getLast? := by
  obtain ⟨front, last, rfl⟩ : ∃ front last, p = front ++ [last] :=
    ⟨_, _, (List.dropLast_append_getLast h).symm⟩
  have hlast : isName last = true := by
    rw [List.all_append, Bool.and_eq_true] at hp
    simpa using hp.2
  rw [List.getLast?_concat]
  exact fileName?_append base (not_isAbsolute_relativePath hp) (splitOn_relativePath h hp) hlast

end Path

/-! ## 2. Steps on a disk -/

/-- The place that steps lead to from a place, where every one of them can be taken. -/
def Place.resolve (p : Place) (steps : List Text) : Place :=
  steps.foldl (fun p step =>
    if Path.isIdle '.' step then p else if step = ['.', '.'] then p.dropLast else p ++ [step]) p

namespace Disk

variable {d : Disk}

theorem node?_nil (d : Disk) : d.node? [] = some .folder := rfl

/-- Something stands at places only that are given by names. -/
theorem named_of_node? {p : Place} {n : Node} (h : d.node? p = some n) :
    p.all Path.isName = true := by
  unfold node? at h
  split at h
  · rename_i hp
    rw [hp]
    rfl
  · rw [Option.map_eq_some_iff] at h
    obtain ⟨m, hm, -⟩ := h
    have he : m.1 = p := by simpa using List.find?_some hm
    rw [← he]
    exact d.named m (List.mem_of_find?_eq_some hm)

/-- A step is taken from a folder: an idle one stays there, one back leads to the folder above, and
every other to what it names. -/
theorem follow_ok {p q : Place} {step : Text} (h : d.follow p step = .ok q) :
    d.node? p = some .folder ∧ ((Path.isIdle '.' step = true ∧ q = p) ∨
      (step = ['.', '.'] ∧ q = p.dropLast) ∨
      (Path.isIdle '.' step = false ∧ step ≠ ['.', '.'] ∧ q = p ++ [step])) := by
  unfold follow at h
  cases hn : d.node? p with
  | none => simp [hn] at h
  | some n =>
    cases n with
    | file b => simp [hn] at h
    | folder =>
      simp only [hn] at h
      refine ⟨rfl, ?_⟩
      split at h
      · rename_i hidle
        exact Or.inl ⟨hidle, (Except.ok.inj h).symm⟩
      · rename_i hidle
        split at h
        · rename_i hback
          exact Or.inr (Or.inl ⟨hback, (Except.ok.inj h).symm⟩)
        · rename_i hback
          split at h
          · exact absurd h (by simp)
          · exact Or.inr (Or.inr ⟨by simpa using hidle, hback, (Except.ok.inj h).symm⟩)

theorem follow_name {p q : Place} {step : Text} (hs : Path.isName step = true)
    (h : d.follow p step = .ok q) : q = p ++ [step] := by
  obtain ⟨hidle, hback, -⟩ := Path.isName_iff.1 hs
  rcases (follow_ok h).2 with ⟨hi, -⟩ | ⟨hb, -⟩ | ⟨-, -, hq⟩
  · exact absurd hi (by simp [hidle])
  · exact absurd hb hback
  · exact hq

theorem length_of_follow {p q : Place} {step : Text} (hs : Path.isName step = true)
    (h : d.follow p step = .ok q) : Encoding.utf8Length step ≤ longestName := by
  obtain ⟨hidle, hback, -⟩ := Path.isName_iff.1 hs
  unfold follow at h
  rw [(follow_ok h).1] at h
  simp only [hidle, Bool.false_eq_true, if_false, hback] at h
  split at h
  · exact absurd h (by simp)
  · omega

theorem follow_of_name {p : Place} {step : Text} (hs : Path.isName step = true)
    (hp : d.node? p = some .folder) (hl : Encoding.utf8Length step ≤ longestName) :
    d.follow p step = .ok (p ++ [step]) := by
  obtain ⟨hidle, hback, -⟩ := Path.isName_iff.1 hs
  have hlong : ¬ longestName < Encoding.utf8Length step := by omega
  unfold follow
  simp only [hp, hidle, Bool.false_eq_true, if_false, hback, hlong]

theorem follow_idle {p : Place} {step : Text} (hs : Path.isIdle '.' step = true)
    (hp : d.node? p = some .folder) : d.follow p step = .ok p := by
  unfold follow
  simp only [hp, hs, if_true]

theorem follow_empty {p q : Place} (h : d.follow p [] = .ok q) : q = p := by
  have hidle : Path.isIdle '.' ([] : Text) = true := rfl
  rcases (follow_ok h).2 with ⟨-, hq⟩ | ⟨hb, -⟩ | ⟨hi, -⟩
  · exact hq
  · exact absurd hb (by simp)
  · exact absurd hi (by simp [hidle])

def walk (d : Disk) (p : Place) (steps : List Text) : Except DiskFault Place :=
  steps.foldlM d.follow p

theorem walk_nil (p : Place) : d.walk p [] = .ok p := rfl

theorem walk_cons (p : Place) (step : Text) (r : List Text) :
    d.walk p (step :: r) = d.follow p step >>= fun q => d.walk q r := List.foldlM_cons

theorem walk_append (p : Place) (a b : List Text) :
    d.walk p (a ++ b) = d.walk p a >>= fun q => d.walk q b := List.foldlM_append

-- A walk that arrives has arrived at each place on the way.
theorem walk_append_ok {p q : Place} {a b : List Text} (h : d.walk p (a ++ b) = .ok q) :
    ∃ r, d.walk p a = .ok r ∧ d.walk r b = .ok q := by
  rw [walk_append] at h
  exact bind_ok h

theorem walk_cons_ok {p q : Place} {step : Text} {r : List Text}
    (h : d.walk p (step :: r) = .ok q) : ∃ k, d.follow p step = .ok k ∧ d.walk k r = .ok q := by
  rw [walk_cons] at h
  exact bind_ok h

-- Names lead to the place below.
theorem walk_names {p q : Place} {ns : List Text} (hn : ns.all Path.isName = true)
    (h : d.walk p ns = .ok q) : q = p ++ ns := by
  induction ns generalizing p with
  | nil => simpa [walk_nil, eq_comm] using h
  | cons a r ih =>
    rw [List.all_cons, Bool.and_eq_true] at hn
    obtain ⟨k, hk, h⟩ := walk_cons_ok h
    rw [ih hn.2 h, follow_name hn.1 hk, List.append_assoc, List.singleton_append]

-- A walk that arrives has arrived where its steps lead on every disk.
theorem walk_resolve {p q : Place} {steps : List Text} (h : d.walk p steps = .ok q) :
    q = p.resolve steps := by
  induction steps generalizing p with
  | nil => exact (Except.ok.inj h).symm
  | cons step r ih =>
    obtain ⟨k, hk, h⟩ := walk_cons_ok h
    rw [ih h]
    unfold Place.resolve
    rw [List.foldl_cons]
    congr 1
    rcases (follow_ok hk).2 with ⟨hidle, rfl⟩ | ⟨hback, rfl⟩ | ⟨hidle, hback, rfl⟩
    · rw [if_pos hidle]
    · have hidle : ¬ Path.isIdle '.' step = true := by
        rw [hback]
        decide
      rw [if_neg hidle, if_pos hback]
    · rw [if_neg (by simp [hidle]), if_neg hback]

theorem named_follow {p q : Place} {step : Text} (hs : '/' ∉ step) (h : d.follow p step = .ok q) :
    q.all Path.isName = true := by
  obtain ⟨hf, hq⟩ := follow_ok h
  have hp := named_of_node? hf
  rcases hq with ⟨-, rfl⟩ | ⟨-, rfl⟩ | ⟨hidle, hback, rfl⟩
  · exact hp
  · rw [List.all_eq_true] at hp ⊢
    exact fun a ha => hp a ((List.dropLast_sublist _).subset ha)
  · rw [List.all_append, hp, Bool.true_and, List.all_cons, List.all_nil, Bool.and_true]
    exact Path.isName_iff.2 ⟨hidle, hback, hs⟩

theorem named_walk {p q : Place} {steps : List Text} (hs : steps ≠ [])
    (hn : ∀ s ∈ steps, '/' ∉ s) (h : d.walk p steps = .ok q) : q.all Path.isName = true := by
  obtain ⟨front, last, rfl⟩ : ∃ front last, steps = front ++ [last] :=
    ⟨_, _, (List.dropLast_append_getLast hs).symm⟩
  obtain ⟨r, -, h⟩ := walk_append_ok h
  obtain ⟨k, hk, h⟩ := walk_cons_ok h
  rw [walk_nil, Except.ok.injEq] at h
  rw [← h]
  exact named_follow (hn last (by simp)) hk

/-! ## 3. Places of paths -/

def origin (d : Disk) (path : Path) : Place := if path.isAbsolute then [] else d.start

/-- A path leads somewhere when it can be a path at all and its steps can be taken. -/
theorem locate_eq_ok {path : Path} {q : Place} : d.locate path = .ok q ↔
    '\x00' ∉ path ∧ path ≠ [] ∧ Encoding.utf8Length path ≤ longestPath ∧
      d.walk (d.origin path) (splitOn '/' path) = .ok q := by
  unfold locate
  constructor
  · intro h
    split at h
    · exact absurd h (by simp)
    · rename_i hnul
      split at h
      · exact absurd h (by simp)
      · rename_i hne
        split at h
        · exact absurd h (by simp)
        · exact ⟨by simpa using hnul, hne, by omega, h⟩
  · rintro ⟨hnul, hne, hlong, h⟩
    rw [if_neg (by simpa using hnul), if_neg hne, if_neg (by omega)]
    exact h

theorem locate_ok {path : Path} {q : Place} (h : d.locate path = .ok q) :
    path ≠ [] ∧ d.walk (d.origin path) (splitOn '/' path) = .ok q :=
  ⟨(locate_eq_ok.1 h).2.1, (locate_eq_ok.1 h).2.2.2⟩

/-- Paths lead to places only that are given by names. -/
theorem named_locate {path : Path} {q : Place} (h : d.locate path = .ok q) :
    q.all Path.isName = true :=
  named_walk (splitOn_ne_nil '/' path) (fun _ hs => not_mem_of_mem_splitOn hs) (locate_ok h).2

theorem origin_append (base : Path) {p : Path} (hp : Path.isAbsolute p = false) :
    d.origin (Path.append base p) = d.origin base := by
  unfold origin
  rw [Path.isAbsolute_append base hp]

-- A path below a folder leads through it.
theorem locate_append_walk {base p : Path} {q : Place} (hp : Path.isAbsolute p = false)
    (hq : d.locate (Path.append base p) = .ok q) : ∃ r,
      d.walk (d.origin base) (Path.leadingSteps base) = .ok r ∧ d.walk r (splitOn '/' p) = .ok q := by
  have hw := (locate_ok hq).2
  rw [Path.splitOn_append base hp, origin_append base hp] at hw
  exact walk_append_ok hw

/-- A path that ends in names leads to a place that ends in them. -/
theorem locate_append_ok {base : Path} {p q : Place} (h : p ≠ []) (hp : p.all Path.isName = true)
    (hq : d.locate (Path.append base (relativePath p)) = .ok q) :
    ∃ r, d.walk (d.origin base) (Path.leadingSteps base) = .ok r ∧ q = r ++ p := by
  obtain ⟨r, hr, hw⟩ := locate_append_walk (Path.not_isAbsolute_relativePath hp) hq
  rw [Path.splitOn_relativePath h hp] at hw
  exact ⟨r, hr, walk_names hp hw⟩

theorem walk_leadingSteps {base : Path} {r : Place} (h : d.locate base = .ok r) :
    d.walk (d.origin base) (Path.leadingSteps base) = .ok r := by
  obtain ⟨hne, hw⟩ := locate_ok h
  unfold Path.leadingSteps
  rw [if_neg hne]
  split
  · -- behind the slash at the end there is one more step, and it is idle
    rename_i hs
    obtain ⟨b, hb⟩ := List.getLast?_eq_some_iff.1 hs
    rw [hb, Path.splitOn_append_slash] at hw
    rw [hb, Path.splitOn_append_slash, List.dropLast_concat]
    obtain ⟨k, hk, hw⟩ := walk_append_ok hw
    obtain ⟨m, hm, hw⟩ := walk_cons_ok hw
    rw [walk_nil, Except.ok.injEq] at hw
    rw [hk, ← hw, follow_empty hm]
  · exact hw

/-- A path below a folder leads somewhere only where the path of the folder leads to one. -/
theorem locate_of_append {base p : Path} {q : Place} (hb : base ≠ [])
    (hp : Path.isAbsolute p = false) (hq : d.locate (Path.append base p) = .ok q) :
    ∃ r, d.locate base = .ok r ∧ d.node? r = some .folder ∧ d.walk r (splitOn '/' p) = .ok q := by
  obtain ⟨r, hr, hw⟩ := locate_append_walk hp hq
  -- a first step is taken from the folder
  have hfolder : d.node? r = some .folder := by
    obtain ⟨step, rest, hs⟩ := List.exists_cons_of_ne_nil (splitOn_ne_nil '/' p)
    rw [hs] at hw
    obtain ⟨k, hk, -⟩ := walk_cons_ok hw
    exact (follow_ok hk).1
  refine ⟨r, ?_, hfolder, hw⟩
  obtain ⟨tail, ht⟩ := Path.exists_append_of_ne_nil hb hp
  obtain ⟨hnul, -, hlong, -⟩ := locate_eq_ok.1 hq
  rw [ht] at hnul hlong
  have hshort : Encoding.utf8Length base ≤ longestPath := by
    rw [Encoding.utf8Length_append] at hlong
    omega
  refine locate_eq_ok.2 ⟨fun hm => hnul (List.mem_append_left tail hm), hb, hshort, ?_⟩
  unfold Path.leadingSteps at hr
  rw [if_neg hb] at hr
  split at hr
  · rename_i hs
    obtain ⟨b, rfl⟩ := List.getLast?_eq_some_iff.1 hs
    rw [Path.splitOn_append_slash, List.dropLast_concat] at hr
    have hidle : Path.isIdle '.' ([] : Text) = true := by decide
    rw [Path.splitOn_append_slash, walk_append, hr]
    show d.walk r [[]] = _
    rw [walk_cons, follow_idle hidle hfolder]
    rfl
  · exact hr

/-- The names below a folder lead from it to the place below it. -/
theorem locate_append {base : Path} {r p q : Place} (hr : d.locate base = .ok r) (h : p ≠ [])
    (hp : p.all Path.isName = true) (hq : d.locate (Path.append base (relativePath p)) = .ok q) :
    q = r ++ p := by
  obtain ⟨k, hk, he⟩ := locate_append_ok h hp hq
  rw [walk_leadingSteps hr, Except.ok.injEq] at hk
  rw [he, hk]

end Disk

end Baselines
