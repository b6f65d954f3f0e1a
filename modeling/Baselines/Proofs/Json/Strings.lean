import Baselines.Proofs.Json.Outcomes
import Baselines.Proofs.Text.Encoding

/-!
# Readers of strings

What a string is read as is the text that it stands for. Where nothing is made of a string it is
passed, also if a half of a pair stands alone in it.
-/

namespace Baselines.Json.Reader

variable {α : Type} {n m m' : Nat} {kept : Bool} {digits digits' found t u : Text}

theorem peekInString_cons (pos : Nat) (c : Char) (t : Text) :
    peekInString ⟨pos, c :: t⟩ = (.ok c, ⟨pos, c :: t⟩) := rfl

theorem simpleEscape?_ne {c x : Char} (h : simpleEscape? c = some x) : c ≠ 'u' := by
  rintro rfl
  simp [simpleEscape?] at h

/-! ## 1. Characters by their numbers -/

/-- Four hexadecimal digits are read as their code. -/
theorem hexEscape_append (h : hexCode? digits = some m) (pos : Nat) (t : Text) :
    hexEscape ⟨pos, digits ++ t⟩ = (.ok m, ⟨pos + 4, t⟩) := by
  rw [hexCode?] at h
  split at h
  next hd =>
    obtain ⟨ds, hm, rfl⟩ := Option.map_eq_some_iff.1 h
    have hlong := Encoding.length_le_utf8Length (digits ++ t)
    rw [List.length_append] at hlong
    rw [hexEscape, if_neg (by simp only; omega)]
    simp only [← hd, List.take_left, List.drop_left, hm]
  next => simp at h

/-- A code that is no half of a pair is its character. -/
theorem hexCharacter_append (h : hexCode? digits = some m) (pos : Nat) (t : Text)
    (hl : isLow m = false) (hh : isHigh m = false) :
    Ends (hexCharacter ⟨pos, digits ++ t⟩) (some (Char.ofNat m)) t := by
  simp only [isLow, isHigh, Bool.and_eq_false_iff, decide_eq_false_iff_not] at hl hh
  rw [hexCharacter, bind_ok (hexEscape_append h pos t), if_neg (by omega), if_pos (by omega)]
  exact ends_ok _ _ _

/-- The second half of a pair cannot stand first. -/
theorem hexCharacter_low (h : hexCode? digits = some m) (pos : Nat) (t u : Text)
    (hl : isLow m = true) : Ends (hexCharacter ⟨pos, digits ++ t⟩) none u := by
  simp only [isLow, Bool.and_eq_true, decide_eq_true_eq] at hl
  rw [hexCharacter, bind_ok (hexEscape_append h pos t), if_pos hl]
  exact (gives_failHere _ _).ends _ _

/-- Behind the first half of a pair another escape is read. -/
theorem hexCharacter_high (h : hexCode? digits = some m) (pos : Nat) (t : Text)
    (hh : isHigh m = true) : hexCharacter ⟨pos, digits ++ t⟩ =
      (pairMark '\\' >>= fun _ => pairMark 'u' >>= fun _ => hexEscape >>= fun l =>
        if l < 0xDC00 ∨ 0xE000 ≤ l then failHere .loneSurrogate
        else return Char.ofNat (0x10000 + (m - 0xD800) * 1024 + (l - 0xDC00))) ⟨pos + 4, t⟩ := by
  simp only [isHigh, Bool.and_eq_true, decide_eq_true_eq] at hh
  rw [hexCharacter, bind_ok (hexEscape_append h pos t), if_neg (by omega), if_neg (by omega)]

theorem ends_pairMark {c : Char} (pos : Nat) (t : Text) :
    Ends (pairMark c ⟨pos, c :: t⟩) (some ()) t := by
  rw [pairMark, bind_ok (peekInString_cons _ _ _), if_pos rfl]
  exact ends_ok _ _ _

theorem pairMark_other {c d : Char} (h : d ≠ c) (pos : Nat) (t u : Text) :
    Ends (pairMark c ⟨pos, d :: t⟩) none u := by
  rw [pairMark, bind_ok (peekInString_cons _ _ _), if_neg h]
  exact (gives_failNext _ _).ends _ _

/-- A first half of a pair needs a number behind it. -/
theorem hexCharacter_single (h : hexCode? digits = some m) (pos : Nat) (hh : isHigh m = true)
    {r : List Piece} (hr : ∀ digits m h r', r = .code digits m h :: r' → False) :
    Ends (hexCharacter ⟨pos, digits ++ (r.flatMap Piece.text ++ '"' :: u)⟩) none t := by
  rw [hexCharacter_high h pos _ hh]
  match r with
  | [] => exact (pairMark_other (by decide) _ _ []).bind_none _ _
  | .plain c hc :: r => exact (pairMark_other (isPlain_iff.1 hc).2.1 _ _ []).bind_none _ _
  | .short c x hc :: r =>
    refine (ends_pairMark _ _).bind_some fun pos => ?_
    exact (pairMark_other (simpleEscape?_ne hc) _ _ []).bind_none _ _
  | .code digits m h :: r => exact (hr digits m h r rfl).elim

/-- Two halves of a pair are one character, and only then. -/
theorem hexCharacter_pair (h : hexCode? digits = some m) (h' : hexCode? digits' = some m')
    (hh : isHigh m = true) (pos : Nat) :
    Ends (hexCharacter ⟨pos, digits ++ '\\' :: 'u' :: (digits' ++ t)⟩)
      (if isLow m' then some (Char.ofNat (0x10000 + (m - 0xD800) * 1024 + (m' - 0xDC00)))
        else none) t := by
  rw [hexCharacter_high h pos _ hh]
  refine (ends_pairMark _ _).bind_some fun pos => (ends_pairMark _ _).bind_some fun pos => ?_
  rw [bind_ok (hexEscape_append h' pos t)]
  by_cases hl : isLow m' = true
  · rw [if_pos hl]
    simp only [isLow, Bool.and_eq_true, decide_eq_true_eq] at hl
    rw [if_neg (by omega)]
    exact ends_ok _ _ _
  · rw [if_neg hl]
    simp only [isLow, Bool.and_eq_true, decide_eq_true_eq] at hl
    rw [if_pos (by omega)]
    exact (gives_failHere _ _).ends _ _

/-! ## 2. One step -/

/-- A string ends at a quote. -/
theorem stringTail_quote (pos : Nat) :
    Ends (stringTail kept (n + 1) found ⟨pos, '"' :: u⟩) (some found.reverse) u := by
  rw [stringTail, bind_ok (peekInString_cons _ _ _), if_pos rfl]
  exact ends_ok _ _ _

/-- A plain character stands for itself. -/
theorem stringTail_plain {c : Char} (h : isPlain c = true) (pos : Nat) :
    ∃ pos', stringTail kept (n + 1) found ⟨pos, c :: t⟩ =
      stringTail kept n (c :: found) ⟨pos', t⟩ := by
  obtain ⟨hquote, hsolidus, hcontrol⟩ := isPlain_iff.1 h
  rw [stringTail, bind_ok (peekInString_cons _ _ _), if_neg hquote, if_neg hsolidus,
    if_neg (by omega)]
  exact ⟨_, rfl⟩

/-- A short escape is the character that it names. -/
theorem stringTail_short {c x : Char} (h : simpleEscape? c = some x) (pos : Nat) :
    ∃ pos', stringTail kept (n + 1) found ⟨pos, '\\' :: c :: t⟩ =
      stringTail kept n (x :: found) ⟨pos', t⟩ := by
  rw [stringTail, bind_ok (peekInString_cons _ _ _), if_neg (by decide), if_pos rfl,
    bind_ok (skip_cons _ _ _), bind_ok (peekInString_cons _ _ _), if_neg (simpleEscape?_ne h), h]
  exact ⟨_, rfl⟩

theorem stringTail_code (pos : Nat) :
    ∃ pos', stringTail true (n + 1) found ⟨pos, '\\' :: 'u' :: t⟩ =
      (hexCharacter >>= fun c => stringTail true n (c :: found)) ⟨pos', t⟩ := by
  rw [stringTail, bind_ok (peekInString_cons _ _ _), if_neg (by decide), if_pos rfl,
    bind_ok (skip_cons _ _ _), bind_ok (peekInString_cons _ _ _), if_pos rfl]
  exact ⟨_, rfl⟩

theorem stringTail_passed_code (h : hexCode? digits = some m) (pos : Nat) :
    ∃ pos', stringTail false (n + 1) found ⟨pos, '\\' :: 'u' :: (digits ++ t)⟩ =
      stringTail false n found ⟨pos', t⟩ := by
  rw [stringTail, bind_ok (peekInString_cons _ _ _), if_neg (by decide), if_pos rfl,
    bind_ok (skip_cons _ _ _), bind_ok (peekInString_cons _ _ _), if_pos rfl,
    bind_ok (skip_cons _ _ _), if_neg (by decide), bind_ok (hexEscape_append h _ t)]
  exact ⟨_, rfl⟩

/-- Where nothing is made of a string, each of its characters is passed in one step. -/
theorem stringTail_passed (p : Piece) (pos : Nat) :
    ∃ found' pos', stringTail false (n + 1) found ⟨pos, p.text ++ t⟩ =
      stringTail false n found' ⟨pos', t⟩ := by
  cases p with
  | plain c h => exact ⟨_, stringTail_plain h pos⟩
  | short c x h => exact ⟨_, stringTail_short h pos⟩
  | code digits m h => exact ⟨_, stringTail_passed_code h pos⟩

/-! ## 3. Whole strings -/

theorem map_reverse_cons (a : α) (found : List α) (o : Option (List α)) :
    (o.map (a :: ·)).map (found.reverse ++ ·) = o.map ((a :: found).reverse ++ ·) := by
  cases o with
  | none => rfl
  | some t => simp

/-- The pieces of a string are read in turn up to the quote. -/
theorem ends_stringTail (ps : List Piece) (hn : ps.length < n) (found : Text) (pos : Nat) :
    Ends (stringTail true n found ⟨pos, ps.flatMap Piece.text ++ '"' :: u⟩)
      ((denoted? ps).map (found.reverse ++ ·)) u := by
  fun_induction denoted? ps generalizing n found pos
  all_goals
    obtain _ | n := n
    · simp at hn
    simp only [List.flatMap_nil, List.flatMap_cons, Piece.text, List.append_assoc,
      List.cons_append, List.nil_append, List.length_cons, Nat.add_lt_add_iff_right,
      Option.map_some, List.append_nil] at hn ⊢
  case case1 => exact stringTail_quote pos
  case case2 c h r ih =>
    obtain ⟨pos', hs⟩ := stringTail_plain h pos
    rw [hs, map_reverse_cons]
    exact ih hn _ _
  case case3 c x h r ih =>
    obtain ⟨pos', hs⟩ := stringTail_short h pos
    rw [hs, map_reverse_cons]
    exact ih hn _ _
  all_goals
    obtain ⟨pos', hs⟩ := stringTail_code pos
    rw [hs]
  case case4 digits m h r hl => exact (hexCharacter_low h _ _ [] hl).bind_none _ _
  case case5 digits m h hl hh digits' m' h' r hl' ih =>
    have hc := hexCharacter_pair (t := r.flatMap Piece.text ++ '"' :: u) h h' hh pos'
    rw [if_pos hl'] at hc
    rw [map_reverse_cons]
    exact hc.bind_some (ih (by omega) _)
  case case6 digits m h hl hh digits' m' h' r hl' =>
    have hc := hexCharacter_pair (t := r.flatMap Piece.text ++ '"' :: u) h h' hh pos'
    rw [if_neg hl'] at hc
    exact hc.bind_none _ _
  case case7 digits m h r hl hh hr => exact (hexCharacter_single (t := []) h _ hh hr).bind_none _ _
  case case8 digits m h r hl hh ih =>
    rw [map_reverse_cons]
    exact (hexCharacter_append h _ _ (by simpa using hl) (by simpa using hh)).bind_some (ih hn _)

/-- A string whose value is not kept may hold any escapes. -/
theorem ends_stringTail_passed (ps : List Piece) (hn : ps.length < n) (found : Text) (pos : Nat) :
    ∃ t, Ends (stringTail false n found ⟨pos, ps.flatMap Piece.text ++ '"' :: u⟩) (some t) u := by
  induction ps generalizing n found pos with
  | nil =>
    obtain _ | n := n
    · simp at hn
    exact ⟨_, stringTail_quote pos⟩
  | cons p ps ih =>
    obtain _ | n := n
    · simp at hn
    obtain ⟨found', pos', hs⟩ := stringTail_passed p pos
    rw [List.flatMap_cons, List.append_assoc, hs]
    exact ih (Nat.lt_of_succ_lt_succ hn) found' pos'

theorem quoted_append (ps : List Piece) (u : Text) :
    quoted ps ++ u = '"' :: (ps.flatMap Piece.text ++ '"' :: u) := by
  simp [quoted]

theorem length_lt_quoted (ps : List Piece) (u : Text) :
    ps.length < (ps.flatMap Piece.text ++ '"' :: u).length + 1 := by
  induction ps with
  | nil => exact Nat.zero_lt_succ _
  | cons p ps ih =>
    have hp : 1 ≤ p.text.length := by
      cases p <;> simp [Piece.text]
    rw [List.flatMap_cons, List.append_assoc, List.length_append, List.length_cons]
    omega

/-- A quoted string is read as what its pieces denote. -/
theorem ends_string (ps : List Piece) (pos : Nat) (u : Text) :
    Ends (string true ⟨pos, quoted ps ++ u⟩) (denoted? ps) u := by
  rw [quoted_append, string, bind_ok (skip_cons _ _ _), bind_ok (unread_apply _)]
  simpa using ends_stringTail ps (length_lt_quoted ps u) [] _

/-- A quoted string is passed, whatever its pieces denote. -/
theorem ends_string_passed (ps : List Piece) (pos : Nat) (u : Text) :
    ∃ t, Ends (string false ⟨pos, quoted ps ++ u⟩) (some t) u := by
  rw [quoted_append, string, bind_ok (skip_cons _ _ _), bind_ok (unread_apply _)]
  exact ends_stringTail_passed ps (length_lt_quoted ps u) [] _

end Baselines.Json.Reader
