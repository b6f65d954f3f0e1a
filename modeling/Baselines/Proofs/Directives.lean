import Baselines.Directives
import Baselines.Proofs.Table
import Baselines.Proofs.Text.LetterCase
import Baselines.Proofs.Text.Pieces

/-!
# What directives declare

The keys of directives are words in lower case, and each is declared once. A configuration takes
one of the values of every key that has any, and nothing else.
-/

namespace Baselines.Directives

open Text

/-! ## 1. Keys -/

/-- Whether a text may be the key of a directive that was read. -/
structure IsKey (key : Text) : Prop where
  ne_nil : key ≠ []
  word : ∀ c ∈ key, isWordChar c = true
  lower : lower key = key
  lowerAscii : lowerAscii key = key

theorem IsKey.of_word {word : Text} (hne : word ≠ []) (hw : ∀ c ∈ word, isWordChar c = true) :
    IsKey (Text.lower word) where
  ne_nil := lowerAfter_ne_nil hne
  word _ h := isWordChar_of_mem_lower hw h
  lower := lower_lower word
  lowerAscii := lowerAscii_lower word

theorem IsKey.trim_eq {key : Text} (h : IsKey key) : trim key = key :=
  trim_of_forall fun c hc => isBlank_of_isWordChar (h.word c hc)

theorem IsKey.not_mem {key : Text} (h : IsKey key) {c : Char} (hc : isWordChar c = false) :
    c ∉ key := by
  intro hm
  rw [h.word c hm] at hc
  exact Bool.noConfusion hc

theorem ofLine?_key {line key value : Text} (h : ofLine? line = some (key, value)) :
    key ≠ [] ∧ ∀ c ∈ key, isWordChar c = true := by
  simp only [ofLine?, bind, Option.bind_eq_some_iff] at h
  obtain ⟨r1, -, rest, -, h⟩ := h
  split at h
  · exact absurd h (by simp)
  · rename_i hne
    obtain ⟨r3, -, he⟩ := Option.bind_eq_some_iff.1 h
    simp only [Option.some.injEq, Prod.mk.injEq] at he
    rw [← he.1]
    exact ⟨hne, fun c hc => List.mem_takeWhile_imp hc⟩

/-- What holds of directives that were read. -/
structure WellKeyed (d : Directives) : Prop where
  sorted : Table.Sorted d.options
  isKey : ∀ entry ∈ d.options, IsKey entry.1

theorem wellKeyed_insert {t : Table Text} (h : WellKeyed ⟨t⟩) {key : Text} (hk : IsKey key)
    (value : Text) : WellKeyed ⟨t.insert key value⟩ where
  sorted := Table.sorted_insert h.sorted key value
  isKey entry he := by
    rcases Table.mem_insert he with rfl | he
    · exact hk
    · exact h.isKey entry he

theorem wellKeyed_ofLines (ls : List Text) : WellKeyed (ofLines ls) := by
  unfold ofLines
  apply List.foldlRecOn (motive := fun t => WellKeyed ⟨t⟩)
  · exact ⟨Table.sorted_nil, fun _ he => absurd he List.not_mem_nil⟩
  · intro t ht line _
    split
    · rename_i key value hl
      obtain ⟨hne, hw⟩ := ofLine?_key hl
      exact wellKeyed_insert ht (IsKey.of_word hne hw) (trim value)
    · exact ht

/-- The keys of a test source are words in lower case, each declared once. -/
theorem wellKeyed_parse (source : Text) : WellKeyed (parse source) :=
  wellKeyed_ofLines (lines source)

theorem WellKeyed.values_eq {d : Directives} (h : WellKeyed d) {key raw : Text}
    (he : (key, raw) ∈ d.options) : d.values key = listed raw := by
  rw [values, get?, (h.isKey _ he).lower, h.sorted.get?_eq_some_iff.2 he]
  rfl

/-! ## 2. Values -/

/-- A listed value is not empty, has no blanks at its ends and no comma. -/
theorem mem_listed {value raw : Text} (h : value ∈ listed raw) :
    value ≠ [] ∧ trim value = value ∧ ',' ∉ value := by
  obtain ⟨hm, hne⟩ := List.mem_filter.1 h
  obtain ⟨piece, hp, rfl⟩ := List.mem_map.1 hm
  exact ⟨by simpa using hne, trim_trim piece,
    fun hc => not_mem_of_mem_splitOn hp (mem_of_mem_trim hc)⟩

/-! ## 3. Configurations -/

/-- Whether a configuration takes one of the values of every entry that lists any, and nothing
else. -/
structure Chosen (entries : List (Text × Text)) (config : Table Text) : Prop where
  sorted : Table.Sorted config
  declared : ∀ key value, (key, value) ∈ config →
    ∃ raw, (key, raw) ∈ entries ∧ value ∈ listed raw
  taken : ∀ key raw, (key, raw) ∈ entries → listed raw ≠ [] → ∃ value, (key, value) ∈ config

variable {config : Table Text} {entries : List (Text × Text)} {entry : Text × Text}

theorem mem_extend {configs : List (Table Text)} : config ∈ extend configs entry ↔
    ∃ c ∈ configs, (listed entry.2 = [] ∧ config = c) ∨
      ∃ value ∈ listed entry.2, config = c.insert entry.1 value := by
  unfold extend
  cases hl : listed entry.2 with
  | nil => simp
  | cons v vs => simp [List.mem_flatMap, eq_comm]

theorem chosen_of_empty (h : Chosen entries config) (hl : listed entry.2 = []) :
    Chosen (entries ++ [entry]) config where
  sorted := h.sorted
  declared key value hm := by
    obtain ⟨raw, hr, hv⟩ := h.declared key value hm
    exact ⟨raw, List.mem_append_left _ hr, hv⟩
  taken key raw hm hne := by
    rcases List.mem_append.1 hm with hm | hm
    · exact h.taken key raw hm hne
    · rw [List.mem_singleton] at hm
      rw [← hm] at hl
      exact absurd hl hne

-- What taking a value for one more key makes of a configuration.
theorem chosen_insert (h : Chosen entries config) (hk : entry.1 ∉ Table.keys entries)
    {value : Text} (hv : value ∈ listed entry.2) :
    Chosen (entries ++ [entry]) (config.insert entry.1 value) := by
  have hsorted := Table.sorted_insert h.sorted entry.1 value
  refine ⟨hsorted, fun key v hm => ?_, fun key raw hm hne => ?_⟩
  · rcases Table.mem_insert hm with he | hm
    · obtain ⟨rfl, rfl⟩ := Prod.mk.inj he
      exact ⟨entry.2, List.mem_append_right _ (List.mem_singleton.2 rfl), hv⟩
    · obtain ⟨raw, hr, hl⟩ := h.declared key v hm
      exact ⟨raw, List.mem_append_left _ hr, hl⟩
  · rcases List.mem_append.1 hm with hm | hm
    · obtain ⟨v, hmv⟩ := h.taken key raw hm hne
      have hne' : key ≠ entry.1 := by
        rintro rfl
        exact hk (Table.mem_keys.2 ⟨raw, hm⟩)
      refine ⟨v, hsorted.get?_eq_some_iff.1 ?_⟩
      rw [Table.get?_insert_ne hne']
      exact h.sorted.get?_eq_some_iff.2 hmv
    · rw [List.mem_singleton] at hm
      rw [← hm]
      exact ⟨value, Table.mem_of_get? (Table.get?_insert_self key value config)⟩

theorem chosen_extend {configs : List (Table Text)} (h : ∀ c ∈ configs, Chosen entries c)
    (hk : entry.1 ∉ Table.keys entries) :
    ∀ c ∈ extend configs entry, Chosen (entries ++ [entry]) c := by
  intro c hc
  rcases mem_extend.1 hc with ⟨c', hc', ⟨hl, rfl⟩ | ⟨v, hv, rfl⟩⟩
  · exact chosen_of_empty (h c hc') hl
  · exact chosen_insert (h c' hc') hk hv

theorem chosen_foldl {rest : List (Text × Text)} {configs : List (Table Text)}
    (h : ∀ c ∈ configs, Chosen entries c) (hk : (Table.keys (entries ++ rest)).Nodup) :
    ∀ c ∈ rest.foldl extend configs, Chosen (entries ++ rest) c := by
  induction rest generalizing entries configs with
  | nil => simpa using h
  | cons entry r ih =>
    have happ : entries ++ entry :: r = (entries ++ [entry]) ++ r := by simp
    have hnew : entry.1 ∉ Table.keys entries := by
      simp only [Table.keys, List.map_append, List.map_cons, List.nodup_append] at hk
      intro hm
      exact hk.2.2 _ hm _ List.mem_cons_self rfl
    rw [happ] at hk ⊢
    exact ih (chosen_extend h hnew) hk

/-- Every configuration takes one value for each key that has any. -/
theorem chosen_of_mem_configurations {d : Directives} (h : WellKeyed d)
    (hc : config ∈ d.configurations) : Chosen d.options config := by
  have hempty : ∀ c ∈ ([[]] : List (Table Text)), Chosen [] c := by
    intro c hm
    rw [List.mem_singleton.1 hm]
    exact ⟨Table.sorted_nil, fun _ _ hm => absurd hm List.not_mem_nil,
      fun _ _ hm => absurd hm List.not_mem_nil⟩
  have hk : (Table.keys ([] ++ d.options)).Nodup := h.sorted.nodup_keys
  exact chosen_foldl hempty hk config hc

end Baselines.Directives
