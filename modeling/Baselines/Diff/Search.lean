import Baselines.Diff.Edit

/-!
# A shortest edit script

Two searches run towards each other through the grid of all pairs of positions, one from the start
and one from the end, each always at the farthest point that it can reach with so many deletions and
insertions. Where they meet the lists are cut in two, and each half is treated alike.
-/

namespace Baselines.Diff

/-! ## 1. Where the searches meet -/

/-- How far a search has come on each diagonal; the diagonal `k` is kept at `k + zero`. -/
structure Reach where
  zero : Nat
  far : Array Nat

namespace Reach

/-- No progress on any of the diagonals from `-n` to `n`. -/
def start (n : Nat) : Reach := ⟨n + 1, Array.replicate (2 * n + 3) 0⟩

/-- How far the search has come on a diagonal. -/
def get (r : Reach) (k : Int) : Nat := r.far.getD (k + r.zero).toNat 0

/-- The progress `x` on a diagonal. -/
def set (r : Reach) (k : Int) (x : Nat) : Reach :=
  ⟨r.zero, r.far.setIfInBounds (k + r.zero).toNat x⟩

/-- Where the search stands on a diagonal after one more step, before it slides along equal
lines. -/
def step (r : Reach) (d k : Int) : Nat :=
  -- an insertion comes from the diagonal above and keeps the position, a deletion advances it
  if k = -d ∨ (k ≠ d ∧ r.get (k - 1) < r.get (k + 1)) then r.get (k + 1) else r.get (k - 1) + 1

end Reach

-- How many lines are equal from `x` and `y` on, with at most `n` of them looked at.
def slide (old new : Array Text) (x y : Nat) : Nat → Nat
  | 0 => 0
  | n + 1 =>
    match old[x]?, new[y]? with
    | some a, some b => if a = b then slide old new (x + 1) (y + 1) n + 1 else 0
    | _, _ => 0

-- The diagonals that a search visits with `d` steps, from the highest down.
def diagonals (d : Nat) : List Int :=
  (List.range (d + 1)).map fun (i : Nat) => (d : Int) - 2 * (i : Int)

-- One round of the search from the start: the meeting point, or the progress.
def forward (old new : Array Text) (d : Nat) (back : Reach) :
    List Int → Reach → Except (Nat × Nat) Reach
  | [], r => .ok r
  | k :: ks, r =>
    let n := old.size
    let delta : Int := n - new.size
    let x := r.step d k
    let y := (x : Int) - k
    let run := if x < n ∧ 0 ≤ y ∧ y < new.size then slide old new x y.toNat n else 0
    let r := r.set k (x + run)
    -- the shortest script has an odd number of changes, so the search from the end is a step behind
    if delta % 2 ≠ 0 ∧ (k - delta).natAbs < d ∧ n ≤ r.get k + back.get (-(k - delta)) then
      .error (x, y.toNat)
    else forward old new d back ks r

-- One round of the search from the end, over the reversed lists: the meeting point, or the
-- progress.
def backward (old new : Array Text) (d : Nat) (fore : Reach) :
    List Int → Reach → Except (Nat × Nat) Reach
  | [], r => .ok r
  | k :: ks, r =>
    let n := old.size
    let m := new.size
    let delta : Int := n - m
    let x := r.step d k
    let y := (x : Int) - k
    let run := if x < n ∧ 0 ≤ y ∧ y < m then slide old new x y.toNat n else 0
    let r := r.set k (x + run)
    -- the shortest script has an even number of changes, so both searches have made `d` steps
    if delta % 2 = 0 ∧ (k - delta).natAbs ≤ d ∧ n ≤ r.get k + fore.get (-(k - delta)) then
      .error (n - (x + run), m - (y.toNat + run))
    else backward old new d fore ks r

-- The rounds from `d` on, at most so many of them.
def rounds (old new oldBack newBack : Array Text) : Nat → Nat → Reach → Reach → Option (Nat × Nat)
  | 0, _, _, _ => none
  | n + 1, d, fore, back =>
    match forward old new d back (diagonals d) fore with
    | .error p => some p
    | .ok fore =>
      match backward oldBack newBack d fore (diagonals d) back with
      | .error p => some p
      | .ok back => rounds old new oldBack newBack n (d + 1) fore back

-- A point on a shortest way through the grid of two lists.
def meeting? (old new : List Text) : Option (Nat × Nat) :=
  let most := (old.length + new.length + 1) / 2 + 1
  rounds old.toArray new.toArray old.reverse.toArray new.reverse.toArray most 0 (Reach.start most)
    (Reach.start most)

/-! ## 2. The script -/

def run (action : Action) (lines : List Text) (oldAt newAt : Nat) : Script :=
  if lines = [] then [] else [⟨action, lines, oldAt, newAt⟩]

-- A script for two lists that begin at the positions; the first argument bounds how often they are
-- cut in two.
def scriptFrom : Nat → List Text → List Text → Nat → Nat → Script
  | 0, old, new, i, j => run .delete old i j ++ run .insert new (i + old.length) j
  | n + 1, old, new, i, j =>
    let a := commonLead old new
    let lead := old.take a
    let old1 := old.drop a
    let new1 := new.drop a
    let z := commonTail old1 new1
    let old2 := old1.take (old1.length - z)
    let new2 := new1.take (new1.length - z)
    let tail := old1.drop (old1.length - z)
    let i' := i + a
    let j' := j + a
    let middle :=
      -- what is left differs at both ends
      if old2 = [] ∨ new2 = [] then run .delete old2 i' j' ++ run .insert new2 i' j'
      else match meeting? old2 new2 with
        | some (x, y) =>
          scriptFrom n (old2.take x) (new2.take y) i' j' ++
            scriptFrom n (old2.drop x) (new2.drop y) (i' + x) (j' + y)
        | none => run .delete old2 i' j' ++ run .insert new2 (i' + old2.length) j'
    run .keep lead i j ++ middle ++ run .keep tail (i' + old2.length) (j' + new2.length)

def shortest (old new : List Text) : Script := scriptFrom (old.length + new.length + 1) old new 0 0

end Baselines.Diff
