import Baselines.Proofs.Directives
import Baselines.Proofs.Text.Lines
import Baselines.Proofs.Text.Parts

/-!
# Directives line by line

Each line declares what it declares by itself, and a carriage return at its end does not count. So
directives are read line after line however the lines end, and of one key the last line counts.
-/

namespace Baselines.Directives

open Text

variable {a b t : Text}

/-! ## 1. One line -/

/-- What a line declares: a key in lower case, and its value without blanks at the ends. -/
def declared? (line : Text) : Option (Text × Text) :=
  (ofLine? line).map fun d => (lower d.1, trim d.2)

theorem dropLead?_append_return {p : Text} (hp : '\r' ∉ p) (t : Text) :
    dropLead? p (t ++ ['\r']) = (dropLead? p t).map (· ++ ['\r']) := by
  induction p generalizing t with
  | nil => rfl
  | cons c p ih =>
    rw [List.mem_cons, not_or] at hp
    cases t with
    | nil => simp [dropLead?, Ne.symm hp.1]
    | cons x t =>
      by_cases hx : c = x
      · simp [dropLead?, hx, ih hp.2]
      · simp [dropLead?, hx]

theorem trimStart_append_return (t : Text) :
    trimStart (t ++ ['\r']) = if trimStart t = [] then [] else trimStart t ++ ['\r'] := by
  have hr : isBlank '\r' = true := by decide
  rw [trimStart, List.dropWhile_append, List.dropWhile_cons_of_pos hr]
  simp [trimStart]

-- A mark is found behind blanks whether or not a return ends the text.
theorem dropLead?_trimStart_append_return {p : Text} (hne : p ≠ []) (hp : '\r' ∉ p) (t : Text) :
    dropLead? p (trimStart (t ++ ['\r'])) = (dropLead? p (trimStart t)).map (· ++ ['\r']) := by
  rw [trimStart_append_return]
  split
  · next ht =>
    obtain ⟨c, p, rfl⟩ := List.exists_cons_of_ne_nil hne
    rw [ht]
    rfl
  · exact dropLead?_append_return hp _

theorem takeWhile_append_return {p : Char → Bool} (hp : p '\r' = false) (t : Text) :
    (t ++ ['\r']).takeWhile p = t.takeWhile p := by
  induction t with
  | nil => simp [hp]
  | cons x t ih => simp [List.takeWhile_cons, ih]

theorem dropWhile_append_return {p : Char → Bool} (hp : p '\r' = false) (t : Text) :
    (t ++ ['\r']).dropWhile p = t.dropWhile p ++ ['\r'] := by
  induction t with
  | nil => simp [hp]
  | cons x t ih =>
    cases hx : p x <;> simp [hx, ih]

/-- A return at the end of a line does not change what the line declares. -/
theorem ofLine?_append_return (line : Text) : ofLine? (line ++ ['\r']) = ofLine? line := by
  have hword : isWordChar '\r' = false := by decide +kernel
  have hvalue (r : Text) :
      (trimStart (r ++ ['\r'])).takeWhile (fun c => decide (c ≠ '\r' ∧ c ≠ '\n')) =
        (trimStart r).takeWhile fun c => decide (c ≠ '\r' ∧ c ≠ '\n') := by
    rw [trimStart_append_return]
    split
    · next hr => rw [hr]
    · exact takeWhile_append_return (by decide) _
  unfold ofLine?
  rw [dropLead?_trimStart_append_return (by decide) (by decide)]
  cases dropLead? "//".toList (trimStart line) with
  | none => rfl
  | some afterSlashes =>
    simp only [Option.map_some, Option.bind_eq_bind, Option.bind_some]
    rw [dropLead?_trimStart_append_return (by decide) (by decide)]
    cases dropLead? ['@'] (trimStart afterSlashes) with
    | none => rfl
    | some rest =>
      simp only [Option.map_some, Option.bind_some, takeWhile_append_return hword,
        dropWhile_append_return hword]
      rw [dropLead?_trimStart_append_return (by decide) (by decide)]
      cases dropLead? [':'] (trimStart (rest.dropWhile isWordChar)) with
      | none => rfl
      | some value =>
        simp only [Option.map_some, Option.bind_some, hvalue]

theorem declared?_append_return (line : Text) : declared? (line ++ ['\r']) = declared? line := by
  rw [declared?, declared?, ofLine?_append_return]

theorem declared?_dropReturn (line : Text) : declared? (dropReturn line) = declared? line := by
  rcases dropReturn_cases line with h | h
  · rw [← h]
  · conv_rhs => rw [h, declared?_append_return]

/-! ## 2. Declarations -/

/-- What the lines of a text declare, in their order. -/
def declarations (t : Text) : List (Text × Text) := (lines t).filterMap declared?

theorem parse_eq (t : Text) : parse t = ⟨Table.ofPairs (declarations t)⟩ := by
  unfold parse ofLines Table.ofPairs declarations
  rw [List.foldl_filterMap]
  congr
  funext table line
  unfold declared?
  cases ofLine? line <;> rfl

theorem declarations_rows (t : Text) : declarations t = (rows t).filterMap declared? := by
  rcases rows_eq_lines t with h | h
  · rw [declarations, h]
  · rw [declarations, h, List.filterMap_append]
    simp [declared?, ofLine?, trimStart, dropLead?]

theorem filterMap_rowsOf (ps : List Text) :
    (rowsOf ps).filterMap declared? = ps.filterMap declared? := by
  induction ps with
  | nil => rfl
  | cons p r ih =>
    by_cases hr : r = []
    · rw [hr, rowsOf]
    · rw [rowsOf_cons p hr, List.filterMap_cons, List.filterMap_cons, declared?_dropReturn, ih]

/-- Each piece between line feeds declares by itself. -/
theorem declarations_eq (t : Text) : declarations t = (splitOn '\n' t).filterMap declared? := by
  rw [declarations_rows, rows, filterMap_rowsOf]

theorem declarations_append_lineFeed (a b : Text) :
    declarations (a ++ '\n' :: b) = declarations a ++ declarations b := by
  rw [declarations_eq, declarations_eq, declarations_eq, splitOn_append, List.filterMap_append]

theorem declarations_append_return (h : '\n' ∉ a) :
    declarations (a ++ ['\r']) = declarations a := by
  have hr : '\n' ∉ a ++ ['\r'] := by simp [h]
  rw [declarations_eq, declarations_eq, splitOn_of_not_mem h, splitOn_of_not_mem hr,
    List.filterMap_cons, List.filterMap_cons, declared?_append_return]

/-- Line feeds that each get a return before them end the same lines. -/
theorem declarations_returns (t : Text) :
    declarations (replace ['\n'] ['\r', '\n'] t) = declarations t := by
  -- `a` is what the current line begins with
  suffices key : ∀ a, '\n' ∉ a →
      declarations (a ++ replace ['\n'] ['\r', '\n'] t) = declarations (a ++ t) from
    key [] List.not_mem_nil
  induction t with
  | nil => intro a _; rfl
  | cons x t ih =>
    intro a ha
    by_cases hx : x = '\n'
    · subst hx
      have hrep := replace_self_append (List.cons_ne_nil '\n' []) ['\r', '\n'] t
      rw [List.singleton_append] at hrep
      have hnext := ih [] List.not_mem_nil
      rw [List.nil_append, List.nil_append] at hnext
      calc declarations (a ++ replace ['\n'] ['\r', '\n'] ('\n' :: t))
          = declarations ((a ++ ['\r']) ++ '\n' :: replace ['\n'] ['\r', '\n'] t) := by
            rw [hrep]
            simp
        _ = declarations (a ++ '\n' :: t) := by
            rw [declarations_append_lineFeed, declarations_append_lineFeed,
              declarations_append_return ha, hnext]
    · have hno : ¬ ['\n'] <+: x :: t := by simp [Ne.symm hx]
      have hnext := ih (a ++ [x]) (by simp [ha, Ne.symm hx])
      rw [replace_cons hno]
      simpa using hnext

/-! ## 3. Directives -/

/-- Directives in which those of `e` take the place of those of `d` with the same key. -/
def override (d e : Directives) : Directives :=
  ⟨e.options.foldl (fun t p => t.insert p.1 p.2) d.options⟩

theorem get?_override {e : Directives} (he : Table.Sorted e.options) (d : Directives) (key : Text) :
    (override d e).options.get? key = (e.options.get? key).or (d.options.get? key) := by
  rw [override, Table.get?_foldl_insert, he.get?_reverse]

theorem sorted_override {d : Directives} (hd : Table.Sorted d.options) (e : Directives) :
    Table.Sorted (override d e).options :=
  Table.sorted_foldl_insert e.options hd

theorem parse_append_lineFeed (a b : Text) :
    parse (a ++ '\n' :: b) = override (parse a) (parse b) := by
  have hsorted (t : Text) : Table.Sorted (parse t).options := (wellKeyed_parse t).sorted
  have hoptions : (parse (a ++ '\n' :: b)).options = (override (parse a) (parse b)).options := by
    refine (hsorted _).ext_get? (sorted_override (hsorted a) (parse b)) fun key => ?_
    rw [get?_override (hsorted b), parse_eq, parse_eq, parse_eq, declarations_append_lineFeed]
    simp only [Table.get?_ofPairs]
    rw [List.reverse_append, Table.get?_append]
  exact congrArg Directives.mk hoptions

theorem parse_returns (t : Text) : parse (replace ['\n'] ['\r', '\n'] t) = parse t := by
  rw [parse_eq, parse_eq, declarations_returns]

/-- A key has the value of the last line that declares it. -/
theorem get?_parse_iff {key value : Text} : (parse t).options.get? key = some value ↔
    ∃ before line after, lines t = before ++ line :: after ∧
      declared? line = some (key, value) ∧ ∀ l ∈ after, ∀ v, declared? l ≠ some (key, v) := by
  -- the last line that declares the key is the first one from the end
  have hfind : (parse t).options.get? key =
      ((lines t).reverse.find? fun l => (declared? l).any (·.1 = key)).bind fun l =>
        (declared? l).map (·.2) := by
    rw [parse_eq, Table.get?_ofPairs, Table.get?, declarations, ← List.filterMap_reverse,
      List.find?_filterMap, Option.map_bind]
    rfl
  have hdeclares (l : Text) : (declared? l).any (·.1 = key) = true ↔
      ∃ v, declared? l = some (key, v) := by
    cases declared? l <;> simp [Prod.ext_iff]
  rw [hfind, Option.bind_eq_some_iff]
  constructor
  · rintro ⟨line, hline, hv⟩
    obtain ⟨hany, after, before, hsplit, hafter⟩ := List.find?_eq_some_iff_append.1 hline
    obtain ⟨v, hd⟩ := (hdeclares line).1 hany
    obtain rfl : v = value := by simpa [hd] using hv
    refine ⟨before.reverse, line, after.reverse, ?_, hd, fun l hl v hlv => ?_⟩
    · rw [← List.reverse_reverse (lines t), hsplit]
      simp
    · have hno := hafter l (List.mem_reverse.1 hl)
      rw [(hdeclares l).2 ⟨v, hlv⟩] at hno
      exact absurd hno (by decide)
  · rintro ⟨before, line, after, hsplit, hd, hafter⟩
    refine ⟨line, List.find?_eq_some_iff_append.2 ⟨(hdeclares line).2 ⟨value, hd⟩, after.reverse,
      before.reverse, by rw [hsplit]; simp, fun l hl => ?_⟩, by rw [hd]; rfl⟩
    have hno : ¬ (declared? l).any (·.1 = key) = true := fun hl' => by
      obtain ⟨v, hv⟩ := (hdeclares l).1 hl'
      exact hafter l (List.mem_reverse.1 hl) v hv
    simpa using hno

/-- Directives are read line by line: those behind a line feed take the place of those before it,
key by key; how the lines end does not count; and a key has the value of its last line. -/
theorem parse_by_lines :
    (∀ a b, parse (a ++ '\n' :: b) = override (parse a) (parse b) ∧
      ∀ key, (override (parse a) (parse b)).options.get? key =
        ((parse b).options.get? key).or ((parse a).options.get? key)) ∧
    (∀ t, parse (replace ['\n'] ['\r', '\n'] t) = parse t) ∧
    ∀ t key value, (parse t).options.get? key = some value ↔
      ∃ before line after, lines t = before ++ line :: after ∧
        declared? line = some (key, value) ∧ ∀ l ∈ after, ∀ v, declared? l ≠ some (key, v) :=
  ⟨fun a b => ⟨parse_append_lineFeed a b, get?_override (wellKeyed_parse b).sorted (parse a)⟩,
    parse_returns, fun _ _ _ => get?_parse_iff⟩

-- Of two returns at the end of a line one is left, which is a blank behind the value.
example : parse "// @Strict: x\r\r\nlet a\n//@strict :\ty \r\r\n" = ⟨[("strict", "y")]⟩ := by
  decide +kernel

end Baselines.Directives
