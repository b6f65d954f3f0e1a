import Baselines.Proofs.Disk.Growth
import Baselines.Proofs.Disk.Order
import Baselines.Proofs.Text.ByteOrder

/-!
# Walks into folders

The files below a folder are found in the order of their places, and that is the order in which a
walk meets them that takes what stands in a folder by its names and goes into each folder at once.
Places are compared name by name, and names by their bytes.
-/

namespace Baselines

/-! ## 1. Bytes of places -/

theorem Place.before_iff_bytes {p q : Place} : Place.before p q = true ↔
    p.map Encoding.utf8Encode ≤ q.map Encoding.utf8Encode := by
  induction p generalizing q with
  | nil => exact iff_of_true rfl (List.nil_le _)
  | cons a p ih =>
    cases q with
    | nil => exact iff_of_false (by simp [Place.before]) (by simp)
    | cons b q =>
      rw [Place.before_cons, ih, List.map_cons, List.map_cons, List.cons_le_cons_iff,
        Encoding.utf8Encode_lt_iff]
      by_cases hab : a = b
      · subst hab
        simp [Text.not_precedes_self]
      · have hbytes : Encoding.utf8Encode a ≠ Encoding.utf8Encode b := fun h =>
          hab (Encoding.utf8Encode_injective h)
        simp only [hab, hbytes, false_and, or_false, false_or, ne_eq, not_false_eq_true, true_and]
        refine ⟨fun h => Text.precedes_of_before h hab, fun h => ?_⟩
        exact (Text.before_total a b).resolve_right (Bool.eq_false_iff.1 h)

namespace Disk

variable {d : Disk} {p q : Place} {name : Text}

/-! ## 2. What stands in a folder -/

/-- The name of what stands at a place, if it stands right in the folder `p`. -/
def nameIn? (p q : Place) : Option Text := if q.dropLast = p then q.getLast? else none

theorem nameIn?_eq_some : nameIn? p q = some name ↔ q = p ++ [name] := by
  unfold nameIn?
  constructor
  · intro h
    split at h
    · rename_i hp
      obtain ⟨front, rfl⟩ := List.getLast?_eq_some_iff.1 h
      rw [← hp, List.dropLast_concat]
    · exact absurd h (by simp)
  · rintro rfl
    rw [List.dropLast_concat, if_pos rfl, List.getLast?_concat]

/-- The names of what stands right in a folder, in order. -/
def entries (d : Disk) (p : Place) : List Text :=
  (d.nodes.filterMap fun n => nameIn? p n.1).mergeSort Text.before

theorem mem_entries : name ∈ d.entries p ↔ d.node? (p ++ [name]) ≠ none := by
  have hne : p ++ [name] ≠ [] := by simp
  unfold entries
  rw [(List.mergeSort_perm _ _).mem_iff, List.mem_filterMap]
  constructor
  · rintro ⟨⟨k, n⟩, hn, hk⟩
    obtain rfl := nameIn?_eq_some.1 hk
    rw [node?_of_mem hne hn]
    exact Option.some_ne_none n
  · intro h
    obtain ⟨n, hn, hk⟩ := mem_of_node? hne h
    exact ⟨n, hn, nameIn?_eq_some.2 hk⟩

theorem sorted_entries (d : Disk) (p : Place) : (d.entries p).Pairwise Text.Precedes := by
  have hnodup : (d.nodes.filterMap fun n => nameIn? p n.1).Nodup := by
    rw [List.nodup_iff_pairwise_ne, List.pairwise_filterMap]
    refine (List.pairwise_map.1 d.distinct).imp ?_
    intro n m hnm a ha b hb hab
    rw [nameIn?_eq_some] at ha hb
    exact hnm (ha.trans (hab ▸ hb.symm))
  have htotal : ∀ a b : Text, (Text.before a b || Text.before b a) = true := by
    intro a b
    simpa using Text.before_total a b
  have htrans : ∀ a b c : Text, Text.before a b = true → Text.before b c = true →
      Text.before a c = true := fun _ _ _ => Text.before_trans
  have hsorted : (d.entries p).Pairwise fun a b => Text.before a b = true :=
    List.pairwise_mergeSort htrans htotal _
  have hne : (d.entries p).Nodup := (List.mergeSort_perm _ _).nodup_iff.2 hnodup
  exact hsorted.imp₂ (fun _ _ h hab => Text.precedes_of_before h hab) hne

/-! ## 3. The walk -/

/-- The files below a folder as a walk meets them that goes through a folder in the order of the
names, and into every folder that it meets before it goes on. The first argument bounds the depth. -/
def depthFirst (d : Disk) : Nat → Place → List Place
  | 0, _ => []
  | depth + 1, p => (d.entries p).flatMap fun name =>
    match d.node? (p ++ [name]) with
    | some (.file _) => [[name]]
    | some .folder => (depthFirst d depth (p ++ [name])).map (name :: ·)
    | none => []

/-- A walk meets the files that are not too deep, and no others. -/
theorem mem_depthFirst (hg : Grounded d) {depth : Nat} : q ∈ d.depthFirst depth p ↔
    q ≠ [] ∧ q.length ≤ depth ∧ ∃ bytes, d.node? (p ++ q) = some (.file bytes) := by
  induction depth generalizing p q with
  | zero =>
    refine iff_of_false List.not_mem_nil ?_
    rintro ⟨hq, hlen, -⟩
    exact hq (List.length_eq_zero_iff.1 (Nat.le_zero.1 hlen))
  | succ depth ih =>
    rw [depthFirst, List.mem_flatMap]
    constructor
    · rintro ⟨name, -, hq⟩
      split at hq
      · rename_i bytes hn
        obtain rfl := List.mem_singleton.1 hq
        exact ⟨by simp, by simp, bytes, hn⟩
      · rename_i hn
        obtain ⟨k, hk, rfl⟩ := List.mem_map.1 hq
        obtain ⟨-, hlen, bytes, hfile⟩ := ih.1 hk
        rw [List.append_assoc, List.singleton_append] at hfile
        exact ⟨by simp, Nat.succ_le_succ hlen, bytes, hfile⟩
      · exact absurd hq List.not_mem_nil
    · rintro ⟨hq, hlen, bytes, hfile⟩
      obtain ⟨name, k, rfl⟩ := List.exists_cons_of_ne_nil hq
      rw [List.append_cons] at hfile
      by_cases hk : k = []
      · subst hk
        rw [List.append_nil] at hfile
        refine ⟨name, mem_entries.2 (by rw [hfile]; exact Option.some_ne_none _), ?_⟩
        simp only [hfile, List.mem_singleton]
      · have hfolder : d.node? (p ++ [name]) = some .folder :=
          hg.folder_of_append hk (by rw [hfile]; exact Option.some_ne_none _)
        refine ⟨name, mem_entries.2 (by rw [hfolder]; exact Option.some_ne_none _), ?_⟩
        simp only [hfolder]
        exact List.mem_map_of_mem (ih.2 ⟨hk, Nat.le_of_succ_le_succ hlen, bytes, hfile⟩)

-- What a walk meets at a name or below begins with it.
theorem exists_of_mem_turn {depth : Nat} (h : q ∈ (match d.node? (p ++ [name]) with
    | some (.file _) => [[name]]
    | some .folder => (d.depthFirst depth (p ++ [name])).map (name :: ·)
    | none => [])) : ∃ k, q = name :: k := by
  split at h
  · exact ⟨[], List.mem_singleton.1 h⟩
  · obtain ⟨k, -, rfl⟩ := List.mem_map.1 h
    exact ⟨k, rfl⟩
  · exact absurd h List.not_mem_nil

theorem sorted_depthFirst (d : Disk) (depth : Nat) (p : Place) :
    (d.depthFirst depth p).Pairwise fun a b => Place.before a b = true ∧ a ≠ b := by
  induction depth generalizing p with
  | zero => exact List.Pairwise.nil
  | succ depth ih =>
    rw [depthFirst, List.pairwise_flatMap]
    constructor
    · intro name _
      split
      · exact List.pairwise_singleton _ _
      · rw [List.pairwise_map]
        refine (ih (p ++ [name])).imp fun {a b} h => ?_
        rw [Place.before_cons]
        exact ⟨Or.inl ⟨rfl, h.1⟩, fun he => h.2 (List.cons.inj he).2⟩
      · exact List.Pairwise.nil
    · refine (sorted_entries d p).imp fun {a b} hab x hx y hy => ?_
      obtain ⟨k, rfl⟩ := exists_of_mem_turn hx
      obtain ⟨m, rfl⟩ := exists_of_mem_turn hy
      have hne : a ≠ b := fun he => Text.not_precedes_self b (he ▸ hab)
      have hbefore := (Text.before_total a b).resolve_right (Bool.eq_false_iff.1 hab)
      rw [Place.before_cons]
      exact ⟨Or.inr ⟨hne, hbefore⟩, fun he => hne (List.cons.inj he).1⟩

/-- The files below a folder are found in the order of a walk that goes into each folder at once. -/
theorem depthFirst_eq (hg : Grounded d) {depth : Nat} {r : Place}
    (h : ∀ n ∈ d.nodes, n.1.length ≤ r.length + depth) :
    d.depthFirst depth r = (d.filesBelow r).map (·.1) := by
  have hsorted := sorted_depthFirst d depth r
  have hnodup : (d.depthFirst depth r).Nodup := hsorted.imp fun h => h.2
  have hperm : (d.depthFirst depth r).Perm ((d.filesBelow r).map (·.1)) := by
    rw [List.perm_ext_iff_of_nodup hnodup (nodup_filesBelow d r)]
    intro p
    rw [mem_depthFirst hg, mem_places_filesBelow]
    refine and_congr_right fun hp => ⟨fun hf => hf.2, fun hf => ⟨?_, hf⟩⟩
    obtain ⟨bytes, hfile⟩ := hf
    obtain ⟨n, hn, he⟩ := mem_of_node? (p := r ++ p) (by simp [hp])
      (by rw [hfile]; exact Option.some_ne_none _)
    have hlen := h n hn
    rw [he, List.length_append] at hlen
    omega
  exact hperm.eq_of_pairwise (fun _ _ _ _ => Place.before_antisymm) (hsorted.imp fun h => h.1)
    (sorted_filesBelow d r)

end Disk

end Baselines
