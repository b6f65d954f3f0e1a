import Baselines.Text.Basic

/-!
# Tables

A table gives values to texts. Its entries are kept in the order of their keys, each key once, so
two tables with the same values are the same table.
-/

namespace Baselines

/-- A list of entries in strictly increasing order of their keys, when built by `insert`. -/
abbrev Table (α : Type) := List (Text × α)

namespace Table

variable {α : Type}

/-- The table with `value` under `key`, whether or not the key had a value. -/
def insert (key : Text) (value : α) : Table α → Table α
  | [] => [(key, value)]
  | (k, v) :: r =>
    if k = key then (key, value) :: r
    else if Text.before key k then (key, value) :: (k, v) :: r
    else (k, v) :: insert key value r

/-- The value under a key. -/
def get? (t : Table α) (key : Text) : Option α := (t.find? (·.1 = key)).map (·.2)

def keys (t : Table α) : List Text := t.map (·.1)

/-- The table of the pairs; of two with one key the later counts. -/
def ofPairs (ps : List (Text × α)) : Table α := ps.foldl (fun t p => insert p.1 p.2 t) []

theorem get?_insert_self (key : Text) (value : α) (t : Table α) :
    get? (insert key value t) key = some value := by
  induction t with
  | nil => simp [insert, get?]
  | cons e r ih =>
    obtain ⟨k, v⟩ := e
    by_cases hk : k = key
    · simp [insert, get?, hk]
    · by_cases hb : Text.before key k = true
      · simp [insert, get?, hk, hb]
      · simp only [insert, hk, if_false, hb]
        simpa [get?, hk] using ih

theorem get?_insert_ne {key other : Text} (h : other ≠ key) (value : α) (t : Table α) :
    get? (insert key value t) other = get? t other := by
  induction t with
  | nil => simp [insert, get?, Ne.symm h]
  | cons e r ih =>
    obtain ⟨k, v⟩ := e
    by_cases hk : k = key
    · subst hk
      simp [insert, get?, Ne.symm h]
    · by_cases hb : Text.before key k = true
      · simp [insert, get?, hk, hb, Ne.symm h]
      · simp only [insert, hk, if_false, hb]
        by_cases ho : k = other
        · simp [get?, ho]
        · simpa [get?, ho] using ih

end Table

end Baselines
