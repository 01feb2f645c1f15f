import RobotShell.Proofs.Lines
/-!
# What a token is read from

`Lexeme k cs rest` says which characters make a token: in front of `rest`, the characters `cs` are all
of a token of kind `k`. A word and an integer take all the characters they can, and a character is a
stray one only where nothing else starts with it. What is read is a lexeme, and where a lexeme stands
it is read, `next_eq_token`. So a line consists of the lexemes of its tokens and the blanks between
them: no character is lost, and none is read twice.
-/

namespace RobotShell

open Unicode

/-! ## Integers -/

namespace Decimal

/-- A run of digits, behind a minus sign if it is negative. -/
def literal (negative : Bool) (ds : List Char) : List Char := if negative then '-' :: ds else ds

/-- What a literal stands for, however large that is. -/
def signed (negative : Bool) (ds : List Char) : Int := if negative then -(value ds : Int) else value ds

/-- At least `-2 ^ 63` and below `2 ^ 63`. -/
def Fits (v : Int) : Prop := -(Nat.pow 2 63 : Int) ≤ v ∧ v < (Nat.pow 2 63 : Int)

instance (v : Int) : Decidable (Fits v) := inferInstanceAs (Decidable (_ ∧ _))

theorem fits_iff {v : Int} : Fits v ↔ ∃ n : Int64, n.toInt = v := by
  constructor
  · exact fun ⟨hlow, hhigh⟩ => ⟨.ofInt v, Int64.toInt_ofInt_of_le hlow hhigh⟩
  · rintro ⟨n, rfl⟩
    exact ⟨Int64.le_toInt n, Int64.toInt_lt n⟩

/-- A sign and digits stand for an integer exactly if it is their value. -/
theorem int64?_eq_some {negative : Bool} {ds : List Char} {n : Int64} :
    int64? negative ds = some n ↔ n.toInt = signed negative ds := by
  have hlow := Int64.le_toInt n
  have hhigh := Int64.toInt_lt n
  have hpow : Nat.pow 2 63 = 2 ^ 63 := rfl
  simp only [int64?, signed, valueUpTo_eq, hpow]
  cases negative with
  | true =>
    simp only [if_true]
    by_cases hv : value ds ≤ 2 ^ 63
    · have hmin : min (2 ^ 63 + 1) (value ds) = value ds := by omega
      have hvalue : (Int64.ofInt (-(value ds : Int))).toInt = -(value ds : Int) :=
        Int64.toInt_ofInt_of_le (by omega) (by omega)
      rw [hmin, if_pos hv, Option.some_inj, ← Int64.toInt_inj, hvalue, eq_comm]
    · rw [if_neg (by omega)]
      simp only [reduceCtorEq, false_iff]
      omega
  | false =>
    simp only [Bool.false_eq_true, if_false]
    by_cases hv : value ds < 2 ^ 63
    · have hmin : min (2 ^ 63 + 1) (value ds) = value ds := by omega
      have hvalue : (Int64.ofNat (value ds)).toInt = value ds := Int64.toInt_ofNat_of_lt hv
      rw [hmin, if_pos hv, Option.some_inj, ← Int64.toInt_inj, hvalue, eq_comm]
    · rw [if_neg (by omega)]
      simp only [reduceCtorEq, false_iff]
      omega

/-- They stand for none exactly if their value does not fit. -/
theorem int64?_eq_none {negative : Bool} {ds : List Char} :
    int64? negative ds = none ↔ ¬Fits (signed negative ds) := by
  simp only [Option.eq_none_iff_forall_ne_some, ne_eq, int64?_eq_some, fits_iff, not_exists]

end Decimal

/-! ## Characters -/

theorem Keyword.ofString?_text (k : Keyword) : Keyword.ofString? k.text = some k := by
  cases k <;> decide +kernel

theorem Symbol.text_cases (y : Symbol) : (∃ d, y.text.toList = [d]) ∨ y.text.toList = ['&', '&'] := by
  cases y with
  | andAnd => exact .inr rfl
  | _ => exact .inl ⟨_, rfl⟩

theorem ne_of_class {p : Char → Bool} {c d : Char} (hc : p c = true) (hd : p d = false) : c ≠ d := by
  rintro rfl
  exact Bool.false_ne_true (hd.symm.trans hc)

/-- A class that no blank and no line end is in has plain characters only. -/
theorem plain_of_class {p : Char → Bool} {c : Char} (hp : [' ', '\t', '\r', '\n'].any p = false)
    (hc : p c = true) : Source.isBlank c = false ∧ Source.isLineEnd c = false := by
  have hne : ∀ d ∈ [' ', '\t', '\r', '\n'], c ≠ d := fun d hd =>
    ne_of_class hc (Bool.eq_false_iff.2 (List.any_eq_false.1 hp d hd))
  simpa [Source.isBlank, Source.isLineEnd, and_assoc] using hne

/-- No blank, no line end and no sign of the language is a letter or a number. -/
theorem isAlphanumeric_sign {c : Char} (h : c ∈ [' ', '\t', '\r', '\n', '=', '(', ')', '&', '-']) :
    isAlphanumeric c = false := by
  have hany : [' ', '\t', '\r', '\n', '=', '(', ')', '&', '-'].any isAlphanumeric = false := by decide +kernel
  exact Bool.eq_false_iff.2 (List.any_eq_false.1 hany c h)

theorem isAlphabetic_sign {c : Char} (h : c ∈ [' ', '\t', '\r', '\n', '=', '(', ')', '&', '-']) :
    isAlphabetic c = false := by
  refine Bool.eq_false_iff.2 fun hc => ?_
  exact Bool.false_ne_true ((isAlphanumeric_sign h).symm.trans (isAlphanumeric_of_isAlphabetic hc))

theorem plain_of_isAlphanumeric {c : Char} (hc : isAlphanumeric c = true) :
    Source.isBlank c = false ∧ Source.isLineEnd c = false := by
  refine plain_of_class (p := isAlphanumeric) (List.any_eq_false.2 fun d hd => ?_) hc
  simp [isAlphanumeric_sign (List.mem_append_left ['=', '(', ')', '&', '-'] hd)]

theorem not_isAlphabetic_of_isDigit {c : Char} (h : c.isDigit = true) : isAlphabetic c = false := by
  have hall : ∀ i < 10, isAlphabetic (Char.ofNat (48 + i)) = false := by decide +kernel
  obtain ⟨hlow, hhigh⟩ : 48 ≤ c.toNat ∧ c.toNat ≤ 57 := Char.isDigit_iff_toNat.1 h
  have hc := hall (c.toNat - 48) (by omega)
  rwa [Nat.add_sub_cancel' hlow, Char.ofNat_toNat] at hc

/-- Characters of a class in front of one that is not: the run cannot be longer. -/
structure Run (p : Char → Bool) (cs rest : List Char) : Prop where
  all : ∀ c ∈ cs, p c = true
  stop : ∀ c ∈ rest.head?, p c = false

instance (p : Char → Bool) (cs rest : List Char) : Decidable (Run p cs rest) :=
  decidable_of_iff (cs.all p = true ∧ rest.head?.all (fun c => !p c) = true)
    ⟨fun ⟨hall, hstop⟩ => ⟨by simpa using hall, by simpa [Option.all_eq_true] using hstop⟩,
      fun h => ⟨by simpa using h.all, by simpa [Option.all_eq_true] using h.stop⟩⟩

theorem run_takeWhile (p : Char → Bool) (cs : List Char) : Run p (cs.takeWhile p) (cs.dropWhile p) where
  all _ hc := List.mem_takeWhile_imp hc
  stop c hc := by simpa [Option.mem_def.1 hc] using List.head?_dropWhile_not p cs

theorem Run.takeWhile_eq {p : Char → Bool} {cs rest : List Char} (h : Run p cs rest) :
    (cs ++ rest).takeWhile p = cs := by
  rw [Source.takeWhile_append_of_head cs h.stop, List.takeWhile_eq_self_iff.2 h.all]

/-- No token but a stray character starts with `c` in front of `rest`. -/
structure Astray (c : Char) (rest : List Char) : Prop where
  blank : Source.isBlank c = false
  lineEnd : Source.isLineEnd c = false
  symbol : ∀ y : Symbol, ¬y.text.toList <+: c :: rest
  digit : c.isDigit = false
  minus : c = '-' → ∀ d ∈ rest.head?, d.isDigit = false
  letter : isAlphabetic c = false

namespace Source

/-- Whether the character belongs to no token but one of its own, wherever it stands. -/
def isStray (c : Char) : Bool :=
  !(isBlank c || isLineEnd c || ['=', '(', ')', '&', '-'].contains c || c.isDigit || isAlphanumeric c)

/-- The character that stands for octets which are no text is stray. -/
example : isStray '\uFFFD' = true := by decide +kernel

end Source

/-- In front of `rest`, the characters are all of a token of the kind. -/
inductive Lexeme : Token.Kind → List Char → List Char → Prop
  | symbol (y : Symbol) (rest : List Char) : Lexeme (.symbol y) y.text.toList rest
  | integer {n : Int64} {negative : Bool} {c : Char} {ds rest : List Char} (hc : c.isDigit = true)
      (hds : Run Char.isDigit ds rest) (hn : n.toInt = Decimal.signed negative (c :: ds)) :
      Lexeme (.integer n) (Decimal.literal negative (c :: ds)) rest
  | outOfRange {negative : Bool} {c : Char} {ds rest : List Char} (hc : c.isDigit = true)
      (hds : Run Char.isDigit ds rest)
      (hv : ¬Decimal.Fits (Decimal.signed negative (c :: ds))) :
      Lexeme .outOfRange (Decimal.literal negative (c :: ds)) rest
  | keyword {k : Keyword} {c : Char} {cs rest : List Char} (htext : k.text = String.ofList (c :: cs))
      (hc : isAlphabetic c = true) (hcs : Run isAlphanumeric cs rest) : Lexeme (.keyword k) (c :: cs) rest
  | name {x : Name} {c : Char} {cs rest : List Char} (htext : x.text = String.ofList (c :: cs))
      (hfree : Keyword.ofString? x.text = none) (hc : isAlphabetic c = true) (hcs : Run isAlphanumeric cs rest) :
      Lexeme (.name x) (c :: cs) rest
  | stray {c : Char} {rest : List Char} (hc : Astray c rest) : Lexeme (.stray c) [c] rest

namespace Source

variable {c : Char} {cs ds rest : List Char} {k : Token.Kind} {s s' : Source} {t : Token}

/-! ## What is read is a lexeme -/

theorem word_lexeme (hc : isAlphabetic c = true) (hcs : Run isAlphanumeric cs rest) :
    Lexeme (word (c :: cs)) (c :: cs) rest := by
  dsimp only [word]
  cases hk : Keyword.ofString? (String.ofList (c :: cs)) with
  | some k => exact .keyword (Keyword.text_of_ofString? hk) hc hcs
  | none => exact .name rfl hk hc hcs

theorem integer_lexeme (negative : Bool) (hc : c.isDigit = true) (hds : Run Char.isDigit ds rest) :
    Lexeme (integer negative (c :: ds)) (Decimal.literal negative (c :: ds)) rest := by
  unfold integer
  cases hn : Decimal.int64? negative (c :: ds) with
  | some n => exact .integer hc hds (Decimal.int64?_eq_some.1 hn)
  | none => exact .outOfRange hc hds (Decimal.int64?_eq_none.1 hn)

theorem lexeme_sound (cs : List Char) (hc : isBlank c = false) (hend : isLineEnd c = false) :
    ∃ x rest, c :: cs = x ++ rest ∧ (lexeme c cs).2 = x.length ∧ Lexeme (lexeme c cs).1 x rest := by
  unfold lexeme
  split_ifs with hequals hopen hclose hand hminus hdigit hletter
  · exact ⟨['='], cs, by rw [hequals]; rfl, rfl, .symbol .equals cs⟩
  · exact ⟨['('], cs, by rw [hopen]; rfl, rfl, .symbol .openParen cs⟩
  · exact ⟨[')'], cs, by rw [hclose]; rfl, rfl, .symbol .closeParen cs⟩
  · obtain ⟨rfl, cs, rfl⟩ : c = '&' ∧ ∃ cs', cs = '&' :: cs' := hand.imp_right List.head?_eq_some_iff.1
    exact ⟨['&', '&'], cs, rfl, rfl, .symbol .andAnd cs⟩
  · obtain ⟨rfl, hd⟩ := hminus
    rcases cs with _ | ⟨d, cs⟩
    · cases hd
    · have hd : d.isDigit = true := hd
      have hlexeme := integer_lexeme true hd (run_takeWhile Char.isDigit cs)
      refine ⟨'-' :: d :: cs.takeWhile Char.isDigit, cs.dropWhile Char.isDigit, by simp, by simp [hd], ?_⟩
      simpa [hd, Decimal.literal] using hlexeme
  · refine ⟨c :: cs.takeWhile Char.isDigit, cs.dropWhile Char.isDigit, by simp, rfl, ?_⟩
    exact integer_lexeme false hdigit (run_takeWhile Char.isDigit cs)
  · refine ⟨c :: cs.takeWhile isAlphanumeric, cs.dropWhile isAlphanumeric, by simp, rfl, ?_⟩
    exact word_lexeme hletter (run_takeWhile isAlphanumeric cs)
  · have hsymbol : ∀ y : Symbol, ¬y.text.toList <+: c :: cs := by
      intro y hy
      cases y with
      | equals => exact hequals (List.cons_prefix_cons.1 hy).1.symm
      | openParen => exact hopen (List.cons_prefix_cons.1 hy).1.symm
      | closeParen => exact hclose (List.cons_prefix_cons.1 hy).1.symm
      | andAnd =>
        obtain ⟨hfirst, rest, hrest⟩ := List.cons_prefix_cons.1 hy
        exact hand ⟨hfirst.symm, by rw [← hrest]; rfl⟩
    have hminus : c = '-' → ∀ d ∈ cs.head?, d.isDigit = false := by
      intro hc d hd
      simpa [hc, Option.mem_def.1 hd] using hminus
    refine ⟨[c], cs, rfl, rfl, .stray ⟨hc, hend, hsymbol, by simpa using hdigit, hminus, by simpa using hletter⟩⟩

/-! ## A lexeme is read -/

theorem lexeme_letter (hc : isAlphabetic c = true) (cs : List Char) :
    lexeme c cs = (word (c :: cs.takeWhile isAlphanumeric), (cs.takeWhile isAlphanumeric).length + 1) := by
  have hne : ∀ d ∈ [' ', '\t', '\r', '\n', '=', '(', ')', '&', '-'], c ≠ d := fun d hd =>
    ne_of_class hc (isAlphabetic_sign hd)
  have hdigit : c.isDigit = false := by
    refine Bool.eq_false_iff.2 fun h => ?_
    exact Bool.false_ne_true ((not_isAlphabetic_of_isDigit h).symm.trans hc)
  simp [lexeme, hne '=', hne '(', hne ')', hne '&', hne '-', hdigit, hc]

theorem lexeme_digit (hc : c.isDigit = true) (cs : List Char) :
    lexeme c cs = (integer false (c :: cs.takeWhile Char.isDigit), (cs.takeWhile Char.isDigit).length + 1) := by
  have hne : ∀ d, d.isDigit = false → c ≠ d := fun d => ne_of_class hc
  simp [lexeme, hne '=' rfl, hne '(' rfl, hne ')' rfl, hne '&' rfl, hne '-' rfl, hc]

theorem lexeme_minus (hc : c.isDigit = true) (cs : List Char) :
    lexeme '-' (c :: cs) = (integer true (c :: cs.takeWhile Char.isDigit), (cs.takeWhile Char.isDigit).length + 2) := by
  simp [lexeme, hc]

theorem lexeme_astray (hc : Astray c rest) : lexeme c rest = (.stray c, 1) := by
  have hne : ∀ y : Symbol, ∀ d, y.text.toList = [d] → c ≠ d := by
    rintro y d hd rfl
    exact hc.symbol y (hd ▸ List.cons_prefix_cons.2 ⟨rfl, List.nil_prefix⟩)
  have hand : ¬(c = '&' ∧ rest.head? = some '&') := by
    rintro ⟨rfl, hrest⟩
    obtain ⟨rest, rfl⟩ := List.head?_eq_some_iff.1 hrest
    exact hc.symbol .andAnd ⟨rest, rfl⟩
  have hminus : ¬(c = '-' ∧ rest.head?.any Char.isDigit = true) := by
    rintro ⟨rfl, hrest⟩
    rcases rest with _ | ⟨d, rest⟩
    · cases hrest
    · exact Bool.false_ne_true ((hc.minus rfl d rfl).symm.trans hrest)
  simp [lexeme, hne .equals '=' rfl, hne .openParen '(' rfl, hne .closeParen ')' rfl, hand, hminus, hc.digit, hc.letter]

theorem integer_of_toInt {negative : Bool} {n : Int64} (hn : n.toInt = Decimal.signed negative ds) :
    integer negative ds = .integer n := by
  rw [integer, Decimal.int64?_eq_some.2 hn]

theorem integer_of_not_fits {negative : Bool} (hv : ¬Decimal.Fits (Decimal.signed negative ds)) :
    integer negative ds = .outOfRange := by
  rw [integer, Decimal.int64?_eq_none.2 hv]

/-- A literal is read as what its sign and digits stand for. -/
theorem lexeme_literal (negative : Bool) (hc : c.isDigit = true) (hds : Run Char.isDigit ds rest) :
    ∃ d cs, Decimal.literal negative (c :: ds) ++ rest = d :: cs ∧ isBlank d = false ∧ isLineEnd d = false ∧
      lexeme d cs = (integer negative (c :: ds), (Decimal.literal negative (c :: ds)).length) := by
  cases negative with
  | true =>
    refine ⟨'-', c :: (ds ++ rest), rfl, rfl, rfl, ?_⟩
    rw [lexeme_minus hc, hds.takeWhile_eq]
    rfl
  | false =>
    obtain ⟨hblank, hend⟩ := plain_of_class (p := Char.isDigit) rfl hc
    refine ⟨c, ds ++ rest, rfl, hblank, hend, ?_⟩
    rw [lexeme_digit hc, hds.takeWhile_eq]
    rfl

theorem lexeme_word (hc : isAlphabetic c = true) (hcs : Run isAlphanumeric cs rest) :
    isBlank c = false ∧ isLineEnd c = false ∧ lexeme c (cs ++ rest) = (word (c :: cs), (c :: cs).length) := by
  obtain ⟨hblank, hend⟩ := plain_of_isAlphanumeric (isAlphanumeric_of_isAlphabetic hc)
  refine ⟨hblank, hend, ?_⟩
  rw [lexeme_letter hc, hcs.takeWhile_eq]
  rfl

theorem lexeme_complete {x : List Char} (h : Lexeme k x rest) :
    ∃ c cs, x ++ rest = c :: cs ∧ isBlank c = false ∧ isLineEnd c = false ∧ lexeme c cs = (k, x.length) := by
  cases h with
  | symbol y =>
    cases y with
    | equals => exact ⟨'=', rest, rfl, rfl, rfl, rfl⟩
    | andAnd => exact ⟨'&', '&' :: rest, rfl, rfl, rfl, rfl⟩
    | openParen => exact ⟨'(', rest, rfl, rfl, rfl, rfl⟩
    | closeParen => exact ⟨')', rest, rfl, rfl, rfl, rfl⟩
  | integer hc hds hn => exact integer_of_toInt hn ▸ lexeme_literal _ hc hds
  | outOfRange hc hds hv => exact integer_of_not_fits hv ▸ lexeme_literal _ hc hds
  | @keyword k c cs _ htext hc hcs =>
    have hword : word (c :: cs) = .keyword k := by
      simp [word, ← htext, Keyword.ofString?_text]
    exact ⟨c, cs ++ rest, rfl, hword ▸ lexeme_word hc hcs⟩
  | @name x c cs _ htext hfree hc hcs =>
    have hword : word (c :: cs) = .name x := by
      simp [word, ← htext, hfree]
    exact ⟨c, cs ++ rest, rfl, hword ▸ lexeme_word hc hcs⟩
  | stray hc => exact ⟨_, _, rfl, hc.blank, hc.lineEnd, lexeme_astray hc⟩

/-- A reading takes the lexeme behind the blanks, and it takes all of it. -/
theorem next_eq_token : s.next = (.token t, s') ↔
    ∃ x, s.skipBlanks.rest = x ++ s'.rest ∧ Lexeme t.kind x s'.rest ∧ t.col = s.skipBlanks.col ∧
      s'.col = t.col + x.length := by
  constructor
  · intro h
    obtain ⟨c, cs, hr, hend, rfl, rfl⟩ := eq_of_next_token h
    obtain ⟨x, rest, hx, hwidth, hlexeme⟩ := lexeme_sound cs (rest_of_skipBlanks hr).1 hend
    have hrest : (c :: cs).drop (lexeme c cs).2 = rest := by rw [hx, hwidth, List.drop_left]
    rw [hrest, hwidth]
    exact ⟨x, hr.trans hx, hlexeme, rfl, rfl⟩
  · rintro ⟨x, hr, hx, hcol, hcol'⟩
    obtain ⟨kind, col⟩ := t
    obtain ⟨col', rest⟩ := s'
    obtain ⟨c, cs, hcs, -, hend, hlexeme⟩ := lexeme_complete hx
    rw [next_token (hr.trans hcs) hend, hlexeme, ← hcs, List.drop_left]
    dsimp only at hcol hcol'
    rw [hcol, hcol', hcol]

end Source

/-! ## Lines -/

/-- The characters up to the first one that ends the line. -/
def firstLine (cs : List Char) : List Char := cs.takeWhile fun c => !Source.isLineEnd c

/-- A token and the characters it is read from. -/
structure Span where
  token : Token
  text : List Char

/-- The column behind the span. -/
def Span.endCol (x : Span) : Nat := x.token.col + x.text.length

/-- The text, which starts at column `col`, is these spans in this order, with blanks around them. -/
inductive Laid : Nat → List Char → List Span → Prop
  | blanks {col : Nat} {gap : List Char} (hgap : ∀ c ∈ gap, Source.isBlank c = true) : Laid col gap []
  | span {col : Nat} {gap rest : List Char} {x : Span} {xs : List Span}
      (hgap : ∀ c ∈ gap, Source.isBlank c = true) (hcol : x.token.col = col + gap.length)
      (hx : Lexeme x.token.kind x.text rest) (hrest : Laid x.endCol rest xs) :
      Laid col (gap ++ (x.text ++ rest)) (x :: xs)

variable {k : Token.Kind} {col i : Nat} {c : Char} {cs text rest : List Char} {xs : List Span}

theorem Lexeme.ne_nil (h : Lexeme k cs rest) : cs ≠ [] := by
  rintro rfl
  obtain ⟨c, cs, hcs, -, -, hlexeme⟩ := Source.lexeme_complete h
  have hpos := Source.lexeme_width_pos c cs
  rw [hlexeme] at hpos
  exact Nat.lt_irrefl 0 hpos

/-- A character of a token is of a class of its own, or it is all of the token. -/
theorem Lexeme.mem_cases (h : Lexeme k cs rest) (hmem : c ∈ cs) :
    ['=', '(', ')', '&', '-'].contains c = true ∨ c.isDigit = true ∨ isAlphanumeric c = true ∨
      k = .stray c ∧ Astray c rest := by
  cases h with
  | symbol y =>
    have hsigns : y.text.toList.all ['=', '(', ')', '&', '-'].contains = true := by cases y <;> rfl
    exact .inl (List.all_eq_true.1 hsigns c hmem)
  | integer hc hds | outOfRange hc hds =>
    rename_i negative d ds _
    have hdigit : c ∈ d :: ds → c.isDigit = true := by
      intro hmem
      rcases List.mem_cons.1 hmem with rfl | hmem
      · exact hc
      · exact hds.all c hmem
    cases negative with
    | false => exact .inr (.inl (hdigit hmem))
    | true =>
      rcases List.mem_cons.1 hmem with rfl | hmem
      · exact .inl rfl
      · exact .inr (.inl (hdigit hmem))
  | keyword _ hc hcs | name _ _ hc hcs =>
    refine .inr (.inr (.inl ?_))
    rcases List.mem_cons.1 hmem with rfl | hmem
    · exact isAlphanumeric_of_isAlphabetic hc
    · exact hcs.all c hmem
  | stray hc =>
    obtain rfl := List.mem_singleton.1 hmem
    exact .inr (.inr (.inr ⟨rfl, hc⟩))

/-- No blank is a part of a token. -/
theorem Lexeme.not_isBlank (h : Lexeme k cs rest) (hmem : c ∈ cs) : Source.isBlank c = false := by
  rcases h.mem_cases hmem with hsign | hdigit | hletter | ⟨-, hstray⟩
  · exact (plain_of_class (p := ['=', '(', ')', '&', '-'].contains) rfl hsign).1
  · exact (plain_of_class (p := Char.isDigit) rfl hdigit).1
  · exact (plain_of_isAlphanumeric hletter).1
  · exact hstray.blank

/-- A token that a stray character is a part of is that character. -/
theorem Lexeme.eq_stray (h : Lexeme k cs rest) (hmem : c ∈ cs) (hc : Source.isStray c = true) : k = .stray c := by
  obtain ⟨-, -, hsign, hdigit, hletter⟩ : Source.isBlank c = false ∧ Source.isLineEnd c = false ∧
      ['=', '(', ')', '&', '-'].contains c = false ∧ c.isDigit = false ∧ isAlphanumeric c = false := by
    simpa only [Source.isStray, Bool.not_eq_true', Bool.or_eq_false_iff, and_assoc] using hc
  have hcases := h.mem_cases hmem
  simp only [hsign, hdigit, hletter, Bool.false_eq_true, false_or] at hcases
  exact hcases.1

/-- What is a lexeme by itself is one in front of everything that breaks it. -/
theorem Lexeme.append {v : List Char} (h : Lexeme k cs []) (hv : ∀ c ∈ v.head?, Source.breaks c = true) :
    Lexeme k cs v := by
  have hbreaks : ∀ c ∈ v.head?, c ≠ '&' ∧ c.isDigit = false ∧ isAlphanumeric c = false := fun c hc => by
    simpa [Source.breaks, and_assoc] using hv c hc
  have hdigit : ∀ {ds}, Run Char.isDigit ds [] → Run Char.isDigit ds v := fun h =>
    ⟨h.all, fun c hc => (hbreaks c hc).2.1⟩
  have hletter : ∀ {ds}, Run isAlphanumeric ds [] → Run isAlphanumeric ds v := fun h =>
    ⟨h.all, fun c hc => (hbreaks c hc).2.2⟩
  cases h with
  | symbol y => exact .symbol y v
  | integer hc hds hn => exact .integer hc (hdigit hds) hn
  | outOfRange hc hds hv => exact .outOfRange hc (hdigit hds) hv
  | keyword htext hc hcs => exact .keyword htext hc (hletter hcs)
  | name htext hfree hc hcs => exact .name htext hfree hc (hletter hcs)
  | @stray c _ hc =>
    have hsymbol : ∀ y : Symbol, ¬y.text.toList <+: c :: v := by
      intro y hy
      -- a symbol of one character would start with `c` alone, and `&&` would take an `&` from `v`
      rcases y.text_cases with ⟨d, hd⟩ | hand
      · refine hc.symbol y ?_
        rw [hd] at hy ⊢
        exact List.cons_prefix_cons.2 ⟨(List.cons_prefix_cons.1 hy).1, List.nil_prefix⟩
      · rw [hand] at hy
        obtain ⟨rest, rfl⟩ := (List.cons_prefix_cons.1 hy).2
        exact (hbreaks '&' rfl).1 rfl
    exact .stray { hc with symbol := hsymbol, minus := fun _ d hd => (hbreaks d hd).2.1 }

namespace Laid

/-- A span is not empty, and it stands within the text. -/
theorem bounds (h : Laid col text xs) :
    ∀ x ∈ xs, col ≤ x.token.col ∧ x.token.col < x.endCol ∧ x.endCol ≤ col + text.length := by
  induction h with
  | blanks => simp
  | @span col gap rest x xs _ hcol hx _ ih =>
    have hpos := List.length_pos_iff.2 hx.ne_nil
    intro y hy
    rcases List.mem_cons.1 hy with rfl | hy
    · simp only [Span.endCol, List.length_append]
      omega
    · obtain ⟨hle, hlt, hend⟩ := ih y hy
      simp only [Span.endCol, List.length_append] at hle hlt hend ⊢
      omega

/-- No two spans overlap. -/
theorem apart (h : Laid col text xs) : xs.Pairwise fun x y => x.endCol ≤ y.token.col := by
  induction h with
  | blanks => exact .nil
  | span _ _ _ hrest ih => exact .cons (fun y hy => (hrest.bounds y hy).1) ih

theorem mem_cases (h : Laid col text xs) (hc : c ∈ text) :
    Source.isBlank c = true ∨ ∃ x ∈ xs, c ∈ x.text ∧ ∃ rest, Lexeme x.token.kind x.text rest := by
  induction h with
  | blanks hgap => exact .inl (hgap c hc)
  | @span col gap rest x xs hgap _ hx _ ih =>
    rcases List.mem_append.1 hc with hc | hc
    · exact .inl (hgap c hc)
    · rcases List.mem_append.1 hc with hc | hc
      · exact .inr ⟨x, List.mem_cons_self, hc, rest, hx⟩
      · exact (ih hc).imp_right fun ⟨y, hy, h⟩ => ⟨y, List.mem_cons_of_mem x hy, h⟩

/-- A character stands in a span unless it is a blank. -/
theorem covers (h : Laid col text xs) (hc : text[i]? = some c) :
    Source.isBlank c = false ↔ ∃ x ∈ xs, x.token.col ≤ col + i ∧ col + i < x.endCol := by
  induction h generalizing i with
  | blanks hgap =>
    have hblank := hgap c (List.mem_of_getElem? hc)
    simp [hblank]
  | @span col gap rest x xs hgap hcol hx hrest ih =>
    have hbounds := hrest.bounds
    rw [List.getElem?_append] at hc
    split at hc
    · next hi =>
      have hblank := hgap c (List.mem_of_getElem? hc)
      refine iff_of_false (by simp [hblank]) ?_
      rintro ⟨y, hy, hle, -⟩
      rcases List.mem_cons.1 hy with rfl | hy
      · omega
      · have hlow := (hbounds y hy).1
        simp only [Span.endCol] at hlow
        omega
    · next hi =>
      rw [List.getElem?_append] at hc
      split at hc
      · next hi' =>
        have hblank := hx.not_isBlank (List.mem_of_getElem? hc)
        refine iff_of_true hblank ⟨x, List.mem_cons_self, ?_, ?_⟩
        · omega
        · simp only [Span.endCol]
          omega
      · next hi' =>
        have hi'' : x.endCol + (i - gap.length - x.text.length) = col + i := by
          simp only [Span.endCol]
          omega
        rw [ih hc, hi'']
        have hfirst : ¬col + i < x.endCol := by omega
        simp [hfirst]

theorem length_le (h : Laid col text xs) : xs.length ≤ text.length := by
  induction h with
  | blanks => exact Nat.zero_le _
  | span _ _ hx _ ih =>
    have hpos := List.length_pos_iff.2 hx.ne_nil
    simp only [List.length_cons, List.length_append]
    omega

end Laid

namespace Source

/-- The `n`-th reading from a source, counted from 0. -/
def reading : Source → Nat → Reading
  | s, 0 => s.next.1
  | s, n + 1 => reading s.next.2 n

theorem skipBlanks_skipBlanks (s : Source) : s.skipBlanks.skipBlanks = s.skipBlanks := by
  rcases hr : s.skipBlanks.rest with _ | ⟨c, cs⟩
  · simp [skipBlanks, show s.rest.dropWhile isBlank = [] from hr]
  · have hc := (rest_of_skipBlanks hr).1
    simp [skipBlanks, show s.rest.dropWhile isBlank = c :: cs from hr, hc]

/-- The end of the line is not consumed. -/
theorem reading_lineEnd {s s' : Source} {col : Nat} (h : s.next = (.lineEnd col, s')) (n : Nat) :
    s.reading n = .lineEnd col := by
  obtain ⟨hstop, -⟩ := next_lineEnd h
  have hs' : s.skipBlanks = s' := congrArg Prod.snd ((next_stop hstop).symm.trans h)
  have hagain : s'.next = (.lineEnd col, s') := by
    rw [← h, ← hs']
    exact next_congr (skipBlanks_skipBlanks s)
  have hall : ∀ n, s'.reading n = .lineEnd col := by
    intro n
    induction n with
    | zero => rw [reading, hagain]
    | succ n ih => rw [reading, hagain]; exact ih
  cases n with
  | zero => rw [reading, h]
  | succ n => rw [reading, h]; exact hall n

/-- The readings are the tokens of the line, and then its end again and again. -/
theorem reading_eq (s : Source) (n : Nat) :
    s.reading n = s.line.tokens[n]?.elim (.lineEnd s.line.endCol) .token := by
  revert n
  refine line_induction (P := fun s l => ∀ n, s.reading n = l.tokens[n]?.elim (.lineEnd l.endCol) .token) ?_ ?_ s
  · exact fun s s' col h n => reading_lineEnd h n
  · intro s s' t h ih n
    cases n with
    | zero => rw [reading, h]; rfl
    | succ n => rw [reading, h]; exact ih n

theorem line_firstLine (s : Source) : Source.line ⟨s.col, firstLine s.rest⟩ = s.line := by
  have hsplit : firstLine s.rest ++ s.rest.dropWhile (fun c => !isLineEnd c) = s.rest :=
    List.takeWhile_append_dropWhile
  rcases hd : s.rest.dropWhile (fun c => !isLineEnd c) with _ | ⟨d, v⟩
  · rw [hd, List.append_nil] at hsplit
    rw [hsplit]
  · have hend : isLineEnd d = true := by simpa [hd] using List.head?_dropWhile_not (fun c => !isLineEnd c) s.rest
    have hcut := line_cut hend v ⟨s.col, firstLine s.rest⟩
    rw [hd] at hsplit
    rw [← hcut, hsplit]

/-- A line that no character ends is laid out in spans, and their tokens are its tokens. -/
theorem line_laid (s : Source) (hs : ∀ c ∈ s.rest, isLineEnd c = false) :
    ∃ xs : List Span, xs.map (·.token) = s.line.tokens ∧ Laid s.col s.rest xs := by
  revert hs
  refine line_induction (P := fun s l => (∀ c ∈ s.rest, isLineEnd c = false) →
    ∃ xs : List Span, xs.map (·.token) = l.tokens ∧ Laid s.col s.rest xs) ?_ ?_ s
  · exact fun s s' col h hs => ⟨[], rfl, .blanks (isBlank_of_lineEnd h hs)⟩
  · intro s s' t h ih hs
    obtain ⟨xs, hxs, hlaid⟩ := ih fun c hc => hs c ((next_rest_suffix h).subset hc)
    obtain ⟨text, hr, hlexeme, hcol, hcol'⟩ := next_eq_token.1 h
    have hsplit : s.rest = s.rest.takeWhile isBlank ++ (text ++ s'.rest) := by
      rw [← hr]
      exact List.takeWhile_append_dropWhile.symm
    refine ⟨⟨t, text⟩ :: xs, by rw [List.map_cons, hxs], ?_⟩
    rw [hsplit]
    rw [hcol'] at hlaid
    exact .span (x := ⟨t, text⟩) (fun c hc => List.mem_takeWhile_imp hc) hcol hlexeme hlaid

theorem line_lexeme (s : Source) : ∀ t ∈ s.line.tokens, ∃ cs rest, Lexeme t.kind cs rest := by
  refine line_induction (P := fun _ l => ∀ t ∈ l.tokens, ∃ cs rest, Lexeme t.kind cs rest) ?_ ?_ s
  · exact fun _ _ _ _ _ h => absurd h List.not_mem_nil
  · intro s s' t h ih u hu
    rcases List.mem_cons.1 hu with rfl | hu
    · obtain ⟨cs, -, hlexeme, -⟩ := next_eq_token.1 h
      exact ⟨cs, s'.rest, hlexeme⟩
    · exact ih u hu

theorem isLineEnd_of_mem_firstLine {cs : List Char} : ∀ c ∈ firstLine cs, isLineEnd c = false := fun c hc => by
  simpa using List.mem_takeWhile_imp hc

/-- A stray character before the line's end is a token of the line. -/
theorem stray_mem_line {c : Char} (hc : isStray c = true) (s : Source)
    (hmem : c ∈ s.rest.takeWhile fun c => !isLineEnd c) : ∃ t ∈ s.line.tokens, t.kind = .stray c := by
  obtain ⟨xs, hxs, hlaid⟩ := line_laid ⟨s.col, firstLine s.rest⟩ isLineEnd_of_mem_firstLine
  rw [line_firstLine] at hxs
  rcases hlaid.mem_cases hmem with hblank | ⟨x, hx, hmem, rest, hlexeme⟩
  · simp [isStray, hblank] at hc
  · exact ⟨x.token, hxs ▸ List.mem_map_of_mem hx, hlexeme.eq_stray hmem hc⟩

/-- The end of the line stands behind its characters. -/
theorem line_endCol (s : Source) : s.line.endCol = s.col + (firstLine s.rest).length := by
  have hcut := line_append (v := []) (by simp) ⟨s.col, firstLine s.rest⟩ isLineEnd_of_mem_firstLine
  have hend : Source.line ⟨s.col + (firstLine s.rest).length, []⟩ = ⟨[], s.col + (firstLine s.rest).length⟩ :=
    line_of_lineEnd (next_of_rest_eq_nil rfl)
  rw [List.append_nil, hend] at hcut
  exact congrArg Line.endCol ((line_firstLine s).symm.trans hcut)

end Source

/-- The tokens of a line and the characters of its text. Each token is read from characters that stand at its
column, and from all that can belong to it; no two tokens share a character, and those outside of tokens are
blanks. The readings are these tokens and then, again and again, the end of the line, which stands behind its
last character. -/
theorem Line.ofString_laid (s : String) :
    (∃ xs : List Span, xs.map (·.token) = (Line.ofString s).tokens ∧ Laid 1 (firstLine s.toList) xs ∧
      (∀ x ∈ xs, x.text ≠ []) ∧ xs.Pairwise (fun x y => x.endCol ≤ y.token.col) ∧
      ∀ i c, (firstLine s.toList)[i]? = some c →
        (Source.isBlank c = false ↔ ∃ x ∈ xs, x.token.col ≤ i + 1 ∧ i + 1 < x.endCol)) ∧
    (Line.ofString s).endCol = (firstLine s.toList).length + 1 ∧
    (Line.ofString s).tokens.length ≤ (firstLine s.toList).length ∧
    ∀ n, (Source.ofString s).reading n =
      (Line.ofString s).tokens[n]?.elim (.lineEnd (Line.ofString s).endCol) .token := by
  obtain ⟨xs, hxs, hlaid⟩ := Source.line_laid ⟨1, firstLine s.toList⟩ Source.isLineEnd_of_mem_firstLine
  have hfirst : Source.line ⟨1, firstLine s.toList⟩ = Line.ofString s := Source.line_firstLine (.ofString s)
  rw [hfirst] at hxs
  have hend : (Line.ofString s).endCol = 1 + (firstLine s.toList).length := Source.line_endCol (.ofString s)
  refine ⟨⟨xs, hxs, hlaid, fun x hx hnil => ?_, hlaid.apart, fun i c hc => ?_⟩, ?_, ?_, ?_⟩
  · have hlt := (hlaid.bounds x hx).2.1
    simp [Span.endCol, hnil] at hlt
  · rw [hlaid.covers hc, Nat.add_comm 1 i]
  · omega
  · rw [← hxs, List.length_map]
    exact hlaid.length_le
  · exact Source.reading_eq (.ofString s)

end RobotShell
