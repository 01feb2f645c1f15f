import Mathlib.Data.List.TakeWhile
import RobotShell.Source
/-!
# Where the tokens of a line stand

The tokens of a line stand in order, before its end. A line that starts further right has the same
tokens further right, and a blank or a parenthesis cuts a line in two: the tokens are those before it,
then those behind it. What follows a carriage return or a line feed is no part of the line at all. A line
has no tokens exactly if it is blank up to its end.
-/

namespace RobotShell

open Unicode

/-- The token with its column changed. -/
def Token.mapCol (f : Nat → Nat) (t : Token) : Token := ⟨t.kind, f t.col⟩

/-- The line `n` columns further right. -/
def Line.shift (n : Nat) (l : Line) : Line := ⟨l.tokens.map (Token.mapCol (· + n)), l.endCol + n⟩

namespace Source

/-- Induction along the tokens of a line. -/
theorem line_induction {P : Source → Line → Prop}
    (stop : ∀ s s' col, s.next = (.lineEnd col, s') → P s ⟨[], col⟩)
    (step : ∀ s s' t, s.next = (.token t, s') → P s' s'.line → P s ⟨t :: s'.line.tokens, s'.line.endCol⟩)
    (s : Source) : P s s.line := by
  induction hn : s.rest.length using Nat.strongRecOn generalizing s with
  | _ n ih =>
    rcases hs : s.next with ⟨t | col, s'⟩
    · have hlt := length_rest_of_next hs
      rw [line_of_token hs]
      exact step s s' t hs (ih _ (hn ▸ hlt) s' rfl)
    · rw [line_of_lineEnd hs]
      exact stop s s' col hs

/-! ## One reading -/

theorem lexeme_width_le (c : Char) (cs : List Char) : (lexeme c cs).2 ≤ cs.length + 1 := by
  have hd := (List.takeWhile_sublist Char.isDigit (l := cs)).length_le
  have ha := (List.takeWhile_sublist isAlphanumeric (l := cs)).length_le
  have hand : cs.head? = some '&' → 1 ≤ cs.length := by cases cs <;> simp
  unfold lexeme
  grind

theorem next_stop {s : Source} (h : ∀ c ∈ s.skipBlanks.rest.head?, isLineEnd c = true) :
    s.next = (.lineEnd s.skipBlanks.col, s.skipBlanks) := by
  unfold next
  generalize s.skipBlanks = b at h ⊢
  obtain ⟨col, _ | ⟨c, cs⟩⟩ := b
  · rfl
  · simp [h c rfl]

theorem next_token {s : Source} {c : Char} {cs : List Char} (h : s.skipBlanks.rest = c :: cs)
    (hc : isLineEnd c = false) :
    s.next = (.token ⟨(lexeme c cs).1, s.skipBlanks.col⟩,
      ⟨s.skipBlanks.col + (lexeme c cs).2, (c :: cs).drop (lexeme c cs).2⟩) := by
  unfold next
  generalize s.skipBlanks = b at h ⊢
  obtain ⟨col, rest⟩ := b
  obtain rfl : rest = c :: cs := h
  simp [hc]

/-- A reading is the line's end or the token behind the blanks. -/
theorem next_cases (s : Source) :
    (∀ c ∈ s.skipBlanks.rest.head?, isLineEnd c = true) ∨
      ∃ c cs, s.skipBlanks.rest = c :: cs ∧ isLineEnd c = false := by
  rcases hr : s.skipBlanks.rest with _ | ⟨c, cs⟩
  · exact .inl (by simp)
  · cases hc : isLineEnd c with
    | true => exact .inl (by simpa using hc)
    | false => exact .inr ⟨c, cs, rfl, hc⟩

/-- A token that is read is the lexeme behind the blanks. -/
theorem eq_of_next_token {s s' : Source} {t : Token} (h : s.next = (.token t, s')) :
    ∃ c cs, s.skipBlanks.rest = c :: cs ∧ isLineEnd c = false ∧ t = ⟨(lexeme c cs).1, s.skipBlanks.col⟩ ∧
      s' = ⟨s.skipBlanks.col + (lexeme c cs).2, (c :: cs).drop (lexeme c cs).2⟩ := by
  rcases next_cases s with hc | ⟨c, cs, hr, hc⟩
  · rw [next_stop hc] at h
    cases h
  · rw [next_token hr hc] at h
    obtain ⟨ht, hs'⟩ : Token.mk _ _ = t ∧ Source.mk _ _ = s' := by simpa using h
    exact ⟨c, cs, hr, hc, ht.symm, hs'.symm⟩

/-- Characters and columns are consumed together. -/
theorem skipBlanks_end (s : Source) :
    s.skipBlanks.col + s.skipBlanks.rest.length = s.col + s.rest.length := by
  have h := congrArg List.length (List.takeWhile_append_dropWhile (p := isBlank) (l := s.rest))
  rw [List.length_append] at h
  simp only [skipBlanks]
  omega

theorem next_end {s s' : Source} {t : Token} (h : s.next = (.token t, s')) :
    s'.col + s'.rest.length = s.col + s.rest.length ∧ s.col ≤ t.col ∧ t.col < s'.col := by
  have hb := skipBlanks_end s
  obtain ⟨c, cs, hr, -, rfl, rfl⟩ := eq_of_next_token h
  have hle := lexeme_width_le c cs
  have hpos := lexeme_width_pos c cs
  rw [hr, List.length_cons] at hb
  simp only [List.length_drop, List.length_cons, skipBlanks] at hb hle ⊢
  omega

theorem next_rest_suffix {s s' : Source} {t : Token} (h : s.next = (.token t, s')) : s'.rest <:+ s.rest := by
  obtain ⟨c, cs, hr, -, -, rfl⟩ := eq_of_next_token h
  have hd : c :: cs <:+ s.rest := hr ▸ List.dropWhile_suffix isBlank
  exact (List.drop_suffix _ _).trans hd

theorem col_le_skipBlanks (s : Source) : s.col ≤ s.skipBlanks.col := Nat.le_add_right _ _

theorem next_lineEnd {s s' : Source} {col : Nat} (h : s.next = (.lineEnd col, s')) :
    (∀ c ∈ s.skipBlanks.rest.head?, isLineEnd c = true) ∧ col = s.skipBlanks.col := by
  rcases next_cases s with hc | ⟨c, cs, hr, hc⟩
  · rw [next_stop hc] at h
    cases h
    exact ⟨hc, rfl⟩
  · rw [next_token hr hc] at h
    cases h

/-- If no character ends the line, the line ends only behind blanks. -/
theorem isBlank_of_lineEnd {s s' : Source} {col : Nat} (h : s.next = (.lineEnd col, s'))
    (hs : ∀ c ∈ s.rest, isLineEnd c = false) : ∀ c ∈ s.rest, isBlank c = true := by
  refine List.dropWhile_eq_nil_iff.1 ?_
  rcases hd : s.rest.dropWhile isBlank with _ | ⟨c, cs⟩
  · rfl
  · have hmem : c ∈ s.rest := (List.dropWhile_sublist isBlank).subset (hd ▸ List.mem_cons_self)
    have hend := (next_lineEnd h).1 c (by rw [skipBlanks, hd]; rfl)
    rw [hs c hmem] at hend
    cases hend

/-! ## Columns -/

/-- The tokens of a line stand from left to right, and before its end. -/
theorem line_sorted (s : Source) :
    (s.line.tokens.map (·.col) ++ [s.line.endCol]).Pairwise (· < ·) ∧
      ∀ col ∈ s.line.tokens.map (·.col) ++ [s.line.endCol], s.col ≤ col := by
  refine line_induction (P := fun s l => (l.tokens.map (·.col) ++ [l.endCol]).Pairwise (· < ·) ∧
    ∀ col ∈ l.tokens.map (·.col) ++ [l.endCol], s.col ≤ col) ?_ ?_ s
  · intro s s' col h
    obtain ⟨-, rfl⟩ := next_lineEnd h
    exact ⟨List.pairwise_singleton .., by simpa using col_le_skipBlanks s⟩
  · intro s s' t h ⟨hsorted, hlow⟩
    obtain ⟨-, hle, hlt⟩ := next_end h
    refine ⟨hsorted.cons fun col hcol => Nat.lt_of_lt_of_le hlt (hlow col hcol), fun col hcol => ?_⟩
    rcases List.mem_cons.1 hcol with rfl | hcol
    · exact hle
    · have hlow := hlow col hcol
      omega

theorem line_cols (s : Source) :
    s.col ≤ s.line.endCol ∧ ∀ t ∈ s.line.tokens, t.col < s.line.endCol := by
  obtain ⟨hsorted, hlow⟩ := line_sorted s
  have hend : s.line.endCol ∈ [s.line.endCol] := List.mem_singleton_self _
  refine ⟨hlow _ (List.mem_append_right _ hend), fun t ht => ?_⟩
  exact (List.pairwise_append.1 hsorted).2.2 t.col (List.mem_map_of_mem ht) _ hend

/-- A line that starts further right has the same tokens, further right. -/
theorem line_shift (n : Nat) (s : Source) : Source.line ⟨s.col + n, s.rest⟩ = s.line.shift n := by
  refine line_induction (P := fun s l => Source.line ⟨s.col + n, s.rest⟩ = l.shift n) ?_ ?_ s
  · intro s s' col h
    obtain ⟨hc, rfl⟩ := next_lineEnd h
    have hn : Source.next ⟨s.col + n, s.rest⟩ = _ := next_stop hc
    rw [line_of_lineEnd hn]
    simp only [Line.shift, List.map_nil, skipBlanks]
    congr 1
    omega
  · intro s s' t h ih
    obtain ⟨c, cs, hr, hc, rfl, rfl⟩ := eq_of_next_token h
    have hn : Source.next ⟨s.col + n, s.rest⟩ = _ := next_token hr hc
    rw [line_of_token hn]
    simp only [skipBlanks, Nat.add_right_comm s.col n] at ih ⊢
    rw [Nat.add_right_comm _ n, ih]
    simp [Line.shift, Token.mapCol]

/-! ## Cutting a line -/

/-- Whether the character is part of no token that starts before it. -/
def breaks (c : Char) : Bool := !(c == '&' || c.isDigit || isAlphanumeric c)

theorem breaks_of_isBlank {c : Char} (h : isBlank c = true) : breaks c = true := by
  obtain rfl | rfl : c = ' ' ∨ c = '\t' := by simpa [isBlank] using h
  all_goals decide

theorem breaks_of_isLineEnd {c : Char} (h : isLineEnd c = true) : breaks c = true := by
  obtain rfl | rfl : c = '\r' ∨ c = '\n' := by simpa [isLineEnd] using h
  all_goals decide

theorem takeWhile_append_of_head {p : Char → Bool} {v : List Char} (cs : List Char)
    (h : ∀ c ∈ v.head?, p c = false) : (cs ++ v).takeWhile p = cs.takeWhile p := by
  induction cs with
  | nil => cases v <;> simp_all
  | cons c cs ih => simp only [List.cons_append, List.takeWhile_cons, ih]

theorem lexeme_append (c : Char) (cs v : List Char) (h : ∀ d ∈ v.head?, breaks d = true) :
    lexeme c (cs ++ v) = lexeme c cs := by
  have hhead : ∀ d ∈ v.head?, d ≠ '&' ∧ d.isDigit = false ∧ isAlphanumeric d = false := by
    intro d hd
    simpa [breaks, and_assoc] using h d hd
  have hdigit : ∀ d ∈ v.head?, d.isDigit = false := fun d hd => (hhead d hd).2.1
  have halpha : ∀ d ∈ v.head?, isAlphanumeric d = false := fun d hd => (hhead d hd).2.2
  have hand : (cs ++ v).head? = some '&' ↔ cs.head? = some '&' := by
    cases cs with
    | cons d cs => rfl
    | nil => exact ⟨fun hv => absurd rfl (hhead '&' hv).1, nofun⟩
  have hneg : (cs ++ v).head?.any Char.isDigit = cs.head?.any Char.isDigit := by
    cases cs with
    | cons d cs => rfl
    | nil => cases v <;> simp_all
  simp only [lexeme, takeWhile_append_of_head cs hdigit, takeWhile_append_of_head cs halpha, hand, hneg]

theorem skipBlanks_append_of_all {col : Nat} {u v : List Char} (hu : ∀ c ∈ u, isBlank c = true) :
    skipBlanks ⟨col, u ++ v⟩ = skipBlanks ⟨col + u.length, v⟩ := by
  simp [skipBlanks, List.takeWhile_append_of_pos hu, List.dropWhile_append_of_pos hu, Nat.add_assoc]

/-- The unread characters are blanks, and behind them one that is not. -/
theorem rest_of_skipBlanks {s : Source} {c : Char} {cs : List Char} (h : s.skipBlanks.rest = c :: cs) :
    isBlank c = false ∧ ∃ w, s.rest = w ++ c :: cs ∧ ∀ d ∈ w, isBlank d = true := by
  have h : s.rest.dropWhile isBlank = c :: cs := h
  refine ⟨?_, s.rest.takeWhile isBlank, ?_, fun d hd => List.mem_takeWhile_imp hd⟩
  · simpa [h] using List.head?_dropWhile_not isBlank s.rest
  · rw [← h]
    exact List.takeWhile_append_dropWhile.symm

theorem skipBlanks_append {s : Source} {c : Char} {cs : List Char} (h : s.skipBlanks.rest = c :: cs)
    (v : List Char) : skipBlanks ⟨s.col, s.rest ++ v⟩ = ⟨s.skipBlanks.col, c :: cs ++ v⟩ := by
  obtain ⟨hc, w, hr, hw⟩ := rest_of_skipBlanks h
  simp [skipBlanks, hr, List.takeWhile_append_of_pos hw, List.dropWhile_append_of_pos hw, hc]

theorem next_congr {s s' : Source} (h : s.skipBlanks = s'.skipBlanks) : s.next = s'.next := by
  unfold next
  rw [h]

/-- Sources whose next reading is the same hold the same line. -/
theorem line_congr {s s' : Source} (h : s.skipBlanks = s'.skipBlanks) : s.line = s'.line := by
  have h := next_congr h
  rcases hs : s'.next with ⟨t | col, s''⟩
  · rw [line_of_token hs, line_of_token (h.trans hs)]
  · rw [line_of_lineEnd hs, line_of_lineEnd (h.trans hs)]

/-- Where a character breaks what comes before, the tokens behind it are read as if they stood alone. -/
theorem line_append {v : List Char} (hv : ∀ c ∈ v.head?, breaks c = true) (s : Source)
    (hs : ∀ c ∈ s.rest, isLineEnd c = false) :
    Source.line ⟨s.col, s.rest ++ v⟩ =
      ⟨s.line.tokens ++ (Source.line ⟨s.col + s.rest.length, v⟩).tokens,
        (Source.line ⟨s.col + s.rest.length, v⟩).endCol⟩ := by
  revert hs
  refine line_induction (P := fun s l => (∀ c ∈ s.rest, isLineEnd c = false) →
    Source.line ⟨s.col, s.rest ++ v⟩ =
      ⟨l.tokens ++ (Source.line ⟨s.col + s.rest.length, v⟩).tokens,
        (Source.line ⟨s.col + s.rest.length, v⟩).endCol⟩) ?_ ?_ s
  · intro s s' col h hs
    exact line_congr (skipBlanks_append_of_all (isBlank_of_lineEnd h hs))
  · intro s s' t h ih hs
    obtain ⟨hcol, -, -⟩ := next_end h
    have ih := ih fun c hc => hs c ((next_rest_suffix h).subset hc)
    obtain ⟨c, cs, hr, hc, rfl, rfl⟩ := eq_of_next_token h
    have hskip := skipBlanks_append hr v
    have hrest : (Source.mk s.col (s.rest ++ v)).skipBlanks.rest = c :: (cs ++ v) := by
      rw [hskip]; rfl
    have hn := next_token hrest hc
    rw [lexeme_append _ _ _ hv, hskip, ← List.cons_append,
      List.drop_append_of_le_length (lexeme_width_le c cs)] at hn
    rw [line_of_token hn, ih, hcol]
    rfl

/-- What stands behind the end of a line is no part of it. -/
theorem line_cut {d : Char} (hd : isLineEnd d = true) (v : List Char) (s : Source) :
    Source.line ⟨s.col, s.rest ++ d :: v⟩ = s.line := by
  have hblank : isBlank d = false := by
    obtain rfl | rfl : d = '\r' ∨ d = '\n' := by simpa [isLineEnd] using hd
    all_goals decide
  have hv : ∀ c ∈ (d :: v).head?, breaks c = true := by simpa using breaks_of_isLineEnd hd
  refine line_induction (P := fun s l => Source.line ⟨s.col, s.rest ++ d :: v⟩ = l) ?_ ?_ s
  · intro s s' col h
    obtain ⟨hstop, rfl⟩ := next_lineEnd h
    rcases hr : s.skipBlanks.rest with _ | ⟨c, cs⟩
    -- all that stands before `d` is blank
    · have hall : ∀ c ∈ s.rest, isBlank c = true := List.dropWhile_eq_nil_iff.1 hr
      have hcol : s.skipBlanks.col = s.col + s.rest.length := by
        rw [skipBlanks, List.takeWhile_eq_self_iff.2 hall]
      have hskip : skipBlanks ⟨s.col, s.rest ++ d :: v⟩ = ⟨s.skipBlanks.col, d :: v⟩ := by
        rw [skipBlanks_append_of_all hall, hcol]
        simp [skipBlanks, hblank]
      have hn : Source.next ⟨s.col, s.rest ++ d :: v⟩ = _ := next_stop (by rw [hskip]; simpa using hd)
      rw [line_of_lineEnd hn, hskip]
    · have hskip := skipBlanks_append hr (d :: v)
      have hn : Source.next ⟨s.col, s.rest ++ d :: v⟩ = _ := next_stop (by rw [hskip]; simpa [hr] using hstop)
      rw [line_of_lineEnd hn, hskip]
  · intro s s' t h ih
    obtain ⟨c, cs, hr, hc, rfl, rfl⟩ := eq_of_next_token h
    have hskip := skipBlanks_append hr (d :: v)
    have hrest : (Source.mk s.col (s.rest ++ d :: v)).skipBlanks.rest = c :: (cs ++ d :: v) := by
      rw [hskip]; rfl
    have hn := next_token hrest hc
    rw [lexeme_append _ _ _ hv, hskip, ← List.cons_append,
      List.drop_append_of_le_length (lexeme_width_le c cs)] at hn
    rw [line_of_token hn, ih]

/-! ## Blank lines -/

/-- A line has no tokens exactly if it is blank up to its end. -/
theorem line_tokens_eq_nil (s : Source) :
    s.line.tokens = [] ↔ ∀ c ∈ s.rest.takeWhile (fun c => !isLineEnd c), isBlank c = true := by
  have hne : ∀ d, isBlank d = true → (!isLineEnd d) = true := by simp +contextual [isBlank, isLineEnd]
  rcases next_cases s with hc | ⟨c, cs, hr, hc⟩
  · rw [line_of_lineEnd (next_stop hc)]
    have hw : ∀ d ∈ s.rest.takeWhile isBlank, isBlank d = true := fun d hd => List.mem_takeWhile_imp hd
    have hd : s.skipBlanks.rest.takeWhile (fun c => !isLineEnd c) = [] := by
      cases hd : s.skipBlanks.rest <;> simp_all
    rw [← List.takeWhile_append_dropWhile (p := isBlank) (l := s.rest),
      List.takeWhile_append_of_pos fun d h => hne d (hw d h)]
    simp only [skipBlanks] at hd
    rw [hd, List.append_nil]
    exact iff_of_true rfl hw
  · rw [line_of_token (next_token hr hc)]
    obtain ⟨hb, w, hrest, hw⟩ := rest_of_skipBlanks hr
    refine iff_of_false (by simp) fun h => ?_
    have hmem : c ∈ s.rest.takeWhile (fun c => !isLineEnd c) := by
      rw [hrest, List.takeWhile_append_of_pos fun d h => hne d (hw d h)]
      simp [hc]
    rw [h c hmem] at hb
    cases hb

end Source
end RobotShell
