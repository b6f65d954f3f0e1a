import Baselines.Fixture
import Baselines.Proofs.Table

/-!
# Options of requests

The request for a baseline takes an option that stands in the name from there, whatever the directives
of the source say of it. Of several options with one key it takes the last, and a look-up in the name
finds the first.
-/

namespace Baselines

open Text

/-! ## 1. Options of a name -/

/-- The last value under a key, whatever the case of its ASCII letters. -/
def Name.lastOption? (n : Name) (key : Text) : Option Text :=
  (n.options.reverse.find? fun o => sameAscii o.1 key).map (·.2)

namespace Name

variable {n : Name} {key value : Text}

theorem exists_lastOption? (h : (key, value) ∈ n.options) : ∃ w, n.lastOption? key = some w := by
  rw [← Option.isSome_iff_exists, lastOption?, Option.isSome_map, List.find?_isSome]
  exact ⟨(key, value), List.mem_reverse.2 h, by simp [sameAscii]⟩

-- Where the options of a key agree, the first and the last have the same value.
theorem option?_eq_lastOption? (hu : ∀ a ∈ n.options, ∀ b ∈ n.options,
    sameAscii a.1 key = true → sameAscii b.1 key = true → a.2 = b.2) :
    n.option? key = n.lastOption? key := by
  unfold option? lastOption?
  cases ha : n.options.find? fun o => sameAscii o.1 key with
  | none =>
    rw [List.find?_eq_none] at ha
    rw [List.find?_eq_none.2 fun o ho => ha o (List.mem_reverse.1 ho)]
  | some a =>
    have ham := List.mem_of_find?_eq_some ha
    have hak : sameAscii a.1 key = true := by simpa using List.find?_some ha
    cases hb : n.options.reverse.find? fun o => sameAscii o.1 key with
    | none =>
      rw [List.find?_eq_none] at hb
      exact absurd hak (hb a (List.mem_reverse.2 ham))
    | some b =>
      have hbm := List.mem_reverse.1 (List.mem_of_find?_eq_some hb)
      have hbk : sameAscii b.1 key = true := by simpa using List.find?_some hb
      exact congrArg some (hu a ham b hbm hak hbk)

end Name

/-! ## 2. Options of a request -/

namespace Request

theorem sorted_optionsOf (ps : List (Text × Text)) : Table.Sorted (optionsOf ps) :=
  Table.sorted_ofPairs _

/-- A key that is not left out has the last value that the pairs give it. -/
theorem get?_optionsOf (ps : List (Text × Text)) {key : Text} (hk : key ∉ otherKeys) :
    Table.get? (optionsOf ps) key =
      (ps.reverse.find? fun p => lowerAscii p.1 = key).map (·.2) := by
  have hkept : ∀ p : Text × Text,
      decide ((!otherKeys.contains p.1) = true ∧ decide (p.1 = key) = true) =
        decide (p.1 = key) := by
    intro p
    by_cases hp : p.1 = key
    · simp [hp, hk]
    · simp [hp]
  rw [optionsOf, Table.get?_ofPairs, Table.get?, ← List.filter_reverse, ← List.map_reverse,
    List.find?_filter, funext hkept, List.find?_map, Option.map_map]
  rfl

end Request

namespace Fixture

variable {f : Fixture} {source : Source}

theorem request_ok_iff (hs : f.source = some source) {r : Request} :
    f.request = .ok (some r) ↔ f.requestFor source = .ok r := by
  unfold request
  simp only [hs]
  cases hr : f.requestFor source with
  | error fault => simp
  | ok q => simp

theorem requestFor_ok {r : Request} (h : f.requestFor source = .ok r) :
    r.options = Request.optionsOf (source.directives.settled ++ f.name.options) := by
  simp only [requestFor, bind, Except.bind] at h
  split at h
  · exact absurd h (by simp)
  · rw [← Except.ok.inj h]

theorem exists_requestFor : (∃ r, f.requestFor source = .ok r) ↔
    ∃ target, f.name.target = .ok target := by
  simp only [requestFor, bind, Except.bind]
  cases f.name.target with
  | error fault => simp
  | ok target => simp [pure, Except.pure]

/-- The request for a baseline, which there is when its name has no target that is not known, carries
every option of the name once, with its key in lower case and with the last value that the name gives
the key. A look-up in the name gives that value when the options with the key agree. -/
theorem option_of_request (hs : f.source = some source) :
    ((∃ r, f.request = .ok (some r)) ↔ ∃ target, f.name.target = .ok target) ∧
    ∀ r, f.request = .ok (some r) → ∀ key value, (key, value) ∈ f.name.options →
      lowerAscii key ∉ Request.otherKeys → ∃ last, f.name.lastOption? key = some last ∧
        r.options.filter (fun o => o.1 = lowerAscii key) = [(lowerAscii key, last)] ∧
        ((∀ a ∈ f.name.options, ∀ b ∈ f.name.options,
          sameAscii a.1 key = true → sameAscii b.1 key = true → a.2 = b.2) →
          f.name.option? key = some last) := by
  simp only [request_ok_iff hs]
  refine ⟨exists_requestFor, fun r hr key value hm hk => ?_⟩
  obtain ⟨last, hlast⟩ := Name.exists_lastOption? hm
  refine ⟨last, hlast, ?_, fun hu => (Name.option?_eq_lastOption? hu).trans hlast⟩
  rw [requestFor_ok hr]
  apply (Request.sorted_optionsOf _).filter_key
  have hfound : (f.name.options.reverse.find? fun o => lowerAscii o.1 = lowerAscii key).map (·.2) =
      some last := hlast
  obtain ⟨o, ho, rfl⟩ := Option.map_eq_some_iff.1 hfound
  -- the name stands behind the directives, so its last option is the last of all
  rw [Request.get?_optionsOf _ hk, List.reverse_append, List.find?_append, ho]
  rfl

/-! ## 3. A key that stands twice -/

-- A source that sets one of the options of the name itself.
def strictSource : Source where
  path := "/t.ts"
  text := "// @strict: c\n// @lib: d\n"
  directives := Directives.parse "// @strict: c\n// @lib: d\n".toList

-- The name gives one option in two spellings, with two values.
def twiceFixture : Fixture where
  name :=
    { test := "t", options := [("Strict", "a"), ("target", "es5"), ("strict", "b")]
      variant := none, stage := none, extension := "js" }
  path := "/t(Strict=a,target=es5,strict=b).js"
  file := MarkedFile.parse []
  source := some strictSource

theorem option_of_request_strict :
    twiceFixture.source = some strictSource ∧
      ("Strict".toList, "a".toList) ∈ twiceFixture.name.options ∧
      lowerAscii "Strict".toList ∉ Request.otherKeys ∧
      ∃ r, twiceFixture.request = .ok (some r) ∧
        r.options.filter (fun o => o.1 = "strict".toList) = [("strict".toList, "b".toList)] := by
  have hm : ("Strict".toList, "a".toList) ∈ twiceFixture.name.options := by decide
  have hk : lowerAscii "Strict".toList ∉ Request.otherKeys := by decide
  have hs : twiceFixture.source = some strictSource := rfl
  obtain ⟨hends, hoptions⟩ := option_of_request hs
  obtain ⟨r, hr⟩ := hends.2 ⟨some .es5, by decide +kernel⟩
  obtain ⟨last, hlast, hfilter, -⟩ := hoptions r hr _ _ hm hk
  have hb : twiceFixture.name.lastOption? "Strict".toList = some "b".toList := by decide
  obtain rfl := Option.some.inj (hb.symm.trans hlast)
  exact ⟨hs, hm, hk, r, hr, hfilter⟩

/-- A look-up in the name finds another value than the request takes from it. -/
theorem option_of_request_twice :
    Name.parse "t(Strict=a,target=es5,strict=b).js".toList = .ok twiceFixture.name ∧
      (twiceFixture.request.map fun r => r.map (·.options)) =
        .ok (some [("lib".toList, "d".toList), ("strict".toList, "b".toList)]) ∧
      twiceFixture.name.option? "strict".toList = some "a".toList := by
  decide +kernel

end Fixture

end Baselines
