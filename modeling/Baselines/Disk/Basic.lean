import Baselines.Path

/-!
# Disks

A disk holds files and folders, each at its place: the names of the folders that lead to it and its
own name. The root is always a folder. The contents of a disk are changed by writing files and by
making and removing folders, and by nothing else. There are no permissions and no limits of space:
what keeps a file from being written is a path that is too long or leads nowhere, or a folder in its
place.
-/

namespace Baselines

/-! ## 1. Places and nodes -/

/-- A place on a disk, as the names that lead there from the root. -/
abbrev Place := List Text

/-- The order of places by their names, which puts a folder before what is in it. -/
def Place.before : Place → Place → Bool
  | [], _ => true
  | _ :: _, [] => false
  | a :: p, b :: q => if a = b then before p q else Text.before a b

/-- What can stand at a place. -/
inductive Node where
  | file (bytes : Bytes)
  | folder
  deriving DecidableEq, Repr

/-- The files and folders of a disk, at most one at each place, and the folder from which relative
paths start. Places are given by names only. -/
structure Disk where
  nodes : List (Place × Node) := []
  start : Place := []
  distinct : (nodes.map (·.1)).Nodup := by simp
  named : ∀ n ∈ nodes, n.1.all Path.isName = true := by simp
  deriving DecidableEq, Repr

/-- Why a disk refuses. -/
inductive DiskFault where
  | noEntry
  | denied
  | taken
  | notFolder
  | isFolder
  | nameTooLong
  | nulInPath
  | nulInArgument
  | notUtf8
  deriving DecidableEq, Repr

namespace DiskFault

/-- The words for a refusal. -/
def reason : DiskFault → Text
  | noEntry => "No such file or directory"
  | denied => "Permission denied"
  | taken => "File exists"
  | notFolder => "Not a directory"
  | isFolder => "Is a directory"
  | nameTooLong => "File name too long"
  | nulInPath => "file name contained an unexpected NUL byte"
  | nulInArgument => "nul byte found in provided data"
  | notUtf8 => "stream did not contain valid UTF-8"

/-- The number of a refusal, if it has one. -/
def number? : DiskFault → Option Nat
  | noEntry => some 2
  | denied => some 13
  | taken => some 17
  | notFolder => some 20
  | isFolder => some 21
  | nameTooLong => some 36
  | nulInPath | nulInArgument | notUtf8 => none

/-- The sentence that reports a refusal. -/
def message (f : DiskFault) : Text :=
  match f.number? with
  | some n => f.reason ++ " (os error " ++ Text.ofNat n ++ [')']
  | none => f.reason

end DiskFault

namespace Disk

def node? (d : Disk) (p : Place) : Option Node :=
  if p = [] then some .folder else (d.nodes.find? (·.1 = p)).map (·.2)

/-- The nodes with `n` at a place, whether or not something stood there. -/
def putNode (p : Place) (n : Node) : List (Place × Node) → List (Place × Node)
  | [] => [(p, n)]
  | (q, m) :: r => if q = p then (p, n) :: r else (q, m) :: putNode p n r

theorem mem_places_putNode {p q : Place} {n : Node} {ns : List (Place × Node)} :
    q ∈ (putNode p n ns).map (·.1) ↔ q = p ∨ q ∈ ns.map (·.1) := by
  induction ns with
  | nil => simp [putNode]
  | cons m r ih =>
    obtain ⟨a, m⟩ := m
    by_cases h : a = p
    · subst h
      simp [putNode]
    · simp only [putNode, h, if_false, List.map_cons, List.mem_cons, ih]
      grind

theorem nodup_putNode {p : Place} {n : Node} {ns : List (Place × Node)}
    (h : (ns.map (·.1)).Nodup) : ((putNode p n ns).map (·.1)).Nodup := by
  induction ns with
  | nil => simp [putNode]
  | cons m r ih =>
    obtain ⟨a, m⟩ := m
    simp only [List.map_cons, List.nodup_cons] at h
    by_cases ha : a = p
    · subst ha
      simpa [putNode] using h
    · simp only [putNode, ha, if_false, List.map_cons, List.nodup_cons, mem_places_putNode]
      grind

theorem named_putNode {p : Place} {n : Node} {ns : List (Place × Node)}
    (hp : p.all Path.isName = true) (h : ∀ m ∈ ns, m.1.all Path.isName = true) :
    ∀ m ∈ putNode p n ns, m.1.all Path.isName = true := by
  intro m hm
  have hq : m.1 ∈ (putNode p n ns).map (·.1) := List.mem_map_of_mem hm
  rw [mem_places_putNode] at hq
  rcases hq with hq | hq
  · rw [hq]
    exact hp
  · obtain ⟨k, hk, he⟩ := List.mem_map.1 hq
    rw [← he]
    exact h k hk

/-- The disk with `n` at a place; a place that is not given by names does not exist. -/
def put (d : Disk) (p : Place) (n : Node) : Disk :=
  if hp : p.all Path.isName = true then
    { d with
      nodes := putNode p n d.nodes
      distinct := nodup_putNode d.distinct
      named := named_putNode hp d.named }
  else d

/-- The disk without what stands at a place and below it. -/
def remove (d : Disk) (p : Place) : Disk :=
  { d with
    nodes := d.nodes.filter fun q => !p.isPrefixOf q.1
    distinct := d.distinct.sublist (List.filter_sublist.map _)
    named := fun n h => d.named n ((List.mem_filter.1 h).1) }

@[simp] theorem node?_put_self (d : Disk) {p : Place} (h : p ≠ [])
    (hp : p.all Path.isName = true) (n : Node) : (d.put p n).node? p = some n := by
  have key : ∀ ns : List (Place × Node), (putNode p n ns).find? (·.1 = p) = some (p, n) := by
    intro ns
    induction ns with
    | nil => simp [putNode]
    | cons m r ih =>
      obtain ⟨a, m⟩ := m
      by_cases ha : a = p <;> simp [putNode, ha, ih]
  simp only [node?, put, hp, dite_true, h, if_false, key, Option.map_some]

theorem node?_put_ne (d : Disk) {p q : Place} (h : q ≠ p) (n : Node) :
    (d.put p n).node? q = d.node? q := by
  have key : ∀ ns : List (Place × Node),
      (putNode p n ns).find? (·.1 = q) = ns.find? (·.1 = q) := by
    intro ns
    induction ns with
    | nil => simp [putNode, Ne.symm h]
    | cons m r ih =>
      obtain ⟨a, m⟩ := m
      by_cases ha : a = p
      · subst ha
        simp [putNode, Ne.symm h]
      · by_cases hq : a = q
        · subst hq
          simp [putNode, ha]
        · simp [putNode, ha, hq, ih]
  unfold put
  split
  · simp only [node?, key]
  · rfl

/-! ## 2. Paths -/

/-- The number of bytes that a name may have. -/
def longestName : Nat := 255

-- The number of bytes that a path may have.
def longestPath : Nat := 4095

/-- The place after one more step of a path; a step is taken from folders only. -/
def follow (d : Disk) (p : Place) (step : Text) : Except DiskFault Place :=
  match d.node? p with
  | none => .error .noEntry
  | some (.file _) => .error .notFolder
  | some .folder =>
    if Path.isIdle '.' step then .ok p
    -- the folder around the root is the root itself
    else if step = ['.', '.'] then .ok p.dropLast
    else if longestName < Encoding.utf8Length step then .error .nameTooLong
    else .ok (p ++ [step])

/-- The place that a path leads to, at which nothing has to stand. -/
def locate (d : Disk) (path : Path) : Except DiskFault Place :=
  if path.contains '\x00' then .error .nulInPath
  else if path = [] then .error .noEntry
  else if longestPath < Encoding.utf8Length path then .error .nameTooLong
  else (Text.splitOn '/' path).foldlM d.follow (if path.isAbsolute then [] else d.start)

/-- The place that a path leads to, and what stands there. -/
def find (d : Disk) (path : Path) : Except DiskFault (Place × Node) := do
  let p ← d.locate path
  match d.node? p with
  | some n => .ok (p, n)
  | none => .error .noEntry

/-- Whether something stands where a path leads. -/
def has (d : Disk) (path : Path) : Bool := (d.find path).toOption.isSome

def hasFolder (d : Disk) (path : Path) : Bool :=
  match d.find path with
  | .ok (_, .folder) => true
  | _ => false

def hasFile (d : Disk) (path : Path) : Bool :=
  match d.find path with
  | .ok (_, .file _) => true
  | _ => false

/-! ## 3. Reading and writing -/

def read (d : Disk) (path : Path) : Except DiskFault Bytes := do
  match ← d.find path with
  | (_, .file bytes) => .ok bytes
  | (_, .folder) => .error .isFolder

/-- A path without the slashes at its end. -/
def bare (path : Path) : Path := Text.dropEndWhile (· == '/') path

/-- The disk with a file whose bytes are given; its folder has to be there. -/
def write (d : Disk) (path : Path) (bytes : Bytes) : Except DiskFault Disk :=
  if path ≠ [] ∧ bare path = [] then .error .isFolder
  else do
    let p ← d.locate (bare path)
    if bare path ≠ path then .error .isFolder
    else match d.node? p with
      | some .folder => .error .isFolder
      | _ => .ok (d.put p (.file bytes))

/-- The disk with one more folder; the folder around it has to be there. -/
def makeFolder (d : Disk) (path : Path) : Except DiskFault Disk :=
  -- slashes at the end count too
  if longestPath < Encoding.utf8Length path ∧ '\x00' ∉ path then .error .nameTooLong
  else if path ≠ [] ∧ bare path = [] then .error .taken
  else do
    let p ← d.locate (bare path)
    match d.node? p with
    | some _ => .error .taken
    | none => .ok (d.put p .folder)

-- The disk with a folder and the folders around it, those that are not there yet. The first
-- argument bounds their number.
def makeFoldersUpTo : Nat → Disk → Path → Except DiskFault Disk
  | 0, _, _ => .error .noEntry
  | n + 1, d, path =>
    if path = [] then .ok d
    else match d.makeFolder path with
      | .ok d => .ok d
      | .error .noEntry =>
        match path.parent? with
        | none => .error .noEntry
        | some above => do
          let d ← makeFoldersUpTo n d above
          match d.makeFolder path with
          | .ok d => .ok d
          | .error e => if d.hasFolder path then .ok d else .error e
      | .error e => if d.hasFolder path then .ok d else .error e

def makeFolders (d : Disk) (path : Path) : Except DiskFault Disk :=
  makeFoldersUpTo (path.length + 1) d path

/-! ## 4. Walks -/

/-- The files of a list of nodes that lie below a place, with the names that lead to each from
there. -/
def filesUnder (p : Place) : List (Place × Node) → List (Place × Bytes)
  | [] => []
  | (q, .file bytes) :: r =>
    if p.isPrefixOf q ∧ p.length < q.length then (q.drop p.length, bytes) :: filesUnder p r
    else filesUnder p r
  | (_, .folder) :: r => filesUnder p r

def filesBelow (d : Disk) (p : Place) : List (Place × Bytes) :=
  (filesUnder p d.nodes).mergeSort fun a b => Place.before a.1 b.1

/-- The names on the way to a place, as a path. -/
def relativePath (p : Place) : Path := Text.join ['/'] p

/-- The files below a place whose bytes are not those they had before. -/
def changedFiles (earlier later : Disk) (p : Place) : List (Path × Bytes) :=
  let files := (later.filesBelow p).filter fun f => earlier.node? (p ++ f.1) ≠ some (.file f.2)
  (files.map fun f => (relativePath f.1, f.2)).mergeSort fun a b => Text.before a.1 b.1

end Disk

end Baselines
