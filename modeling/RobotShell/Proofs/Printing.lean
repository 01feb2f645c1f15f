import RobotShell.Proofs.Grammar
import RobotShell.Proofs.Lexemes
/-!
# Writing a tree as a line

`Expr.source` writes a tree as a line of the language, with no more parentheses than the grammar asks
for. The line of a tree without errors reads as that tree, whatever its shape, as long as not too many
operands are open at once: `Expr.nesting` counts them, and no other line of the tree needs fewer.
-/

namespace RobotShell

open Unicode

/-- The text of the name forms a name and is no keyword. -/
def Name.IsFree (x : Name) : Prop := Name.ofString? x.text = some x ∧ Keyword.ofString? x.text = none

instance (x : Name) : Decidable x.IsFree := inferInstanceAs (Decidable (_ ∧ _))

/-- A name is a letter and letters and numbers. -/
theorem Name.letters {x : Name} (h : Name.ofString? x.text = some x) :
    ∃ c cs, x.text.toList = c :: cs ∧ isAlphabetic c = true ∧ ∀ d ∈ cs, isAlphanumeric d = true := by
  obtain ⟨hspells, -⟩ := Name.ofString?_eq_some.1 h
  rcases hs : x.text.toList with _ | ⟨c, cs⟩
  · simp [hs, Name.spells] at hspells
  · obtain ⟨hc, hcs⟩ : isAlphabetic c = true ∧ ∀ d ∈ cs, isAlphanumeric d = true := by
      simpa [hs, Name.spells] using hspells
    exact ⟨c, cs, rfl, hc, hcs⟩

/-- The words of the language would be names if they were not kept for it. -/
theorem Keyword.ofString?_name (k : Keyword) : Name.ofString? k.text = some ⟨k.text⟩ := by
  cases k <;> decide +kernel

namespace Expr

def isChain : Expr → Bool
  | seq _ _ => true
  | _ => false

def isAtom : Expr → Bool
  | name _ | int _ => true
  | _ => false

def names : Expr → List Name
  | seq left right => left.names ++ right.names
  | assign x e | buy x e | sell x e => x :: e.names
  | rotate e | move e => e.names
  | name x | echo x => [x]
  | _ => []

def bracket (needed : Bool) (s : String) : String := if needed then "(" ++ s ++ ")" else s

/-- The tree as a line. A chain is put in parentheses unless it is the rest of another one, and an
operand of `rotate` or `move` unless it is a name or an integer. -/
def source : Expr → String
  | error message _ => message
  | seq left right => bracket left.isChain left.source ++ " " ++ Symbol.andAnd.text ++ " " ++ right.source
  | assign x e =>
    Keyword.assign.text ++ " " ++ x.text ++ " " ++ Symbol.equals.text ++ " " ++ bracket e.isChain e.source
  | name x => x.text
  | int n => toString n.toInt
  | help => Keyword.help.text
  | echo x => Keyword.echo.text ++ " " ++ x.text
  | landmark => Keyword.landmark.text
  | rotate e => Keyword.rotate.text ++ " " ++ bracket (!e.isAtom) e.source
  | move e => Keyword.move.text ++ " " ++ bracket (!e.isAtom) e.source
  | buy x e => Keyword.buy.text ++ " " ++ x.text ++ " " ++ bracket e.isChain e.source
  | sell x e => Keyword.sell.text ++ " " ++ x.text ++ " " ++ bracket e.isChain e.source
  | inventory => Keyword.inventory.text
  | marketPrices => Keyword.marketPrices.text
  | cityPrices => Keyword.cityPrices.text
  | quit => Keyword.quit.text
  | stop => Keyword.stop.text

/-- How many operands are open at once where the line of the tree is read. -/
def nesting : Expr → Nat
  | seq left right => max (left.nesting + left.isChain.toNat) right.nesting
  | assign _ e | buy _ e | sell _ e => e.nesting + e.isChain.toNat + 1
  | rotate e | move e => e.nesting + (!e.isAtom).toNat + 1
  | _ => 1

end Expr

namespace Grammar

open RobotShell.Expr

/-- The kinds of the tokens at the front of a text. -/
def kindsFrom (cs : List Char) : List Token.Kind := kinds (Source.line ⟨1, cs⟩).tokens

/-- The text gives these kinds of tokens in front of everything that breaks its last one. -/
def Spells (s : String) (ks : List Token.Kind) : Prop :=
  ∀ v : List Char, (∀ c ∈ v.head?, Source.breaks c = true) → kindsFrom (s.toList ++ v) = ks ++ kindsFrom v

variable {s t : String} {c : Char} {cs : List Char} {k : Token.Kind} {ks ls : List Token.Kind} {n m : Nat} {e : Expr}

/-! ## The tokens of a text -/

theorem kinds_line (col : Nat) (cs : List Char) : kinds (Source.line ⟨col, cs⟩).tokens = kindsFrom cs := by
  have hshift : ∀ n, kinds (Source.line ⟨n, cs⟩).tokens = kinds (Source.line ⟨0, cs⟩).tokens := by
    intro n
    have h := Source.line_shift n ⟨0, cs⟩
    simp only [Nat.zero_add] at h
    simp [h, Line.shift, kinds, Token.mapCol]
  exact (hshift col).trans (hshift 1).symm

theorem kindsFrom_lexeme (h : Lexeme k cs rest) : kindsFrom (cs ++ rest) = k :: kindsFrom rest := by
  obtain ⟨c, ds, hcs, hc, -, -⟩ := Source.lexeme_complete h
  have hskip : Source.skipBlanks ⟨1, cs ++ rest⟩ = ⟨1, cs ++ rest⟩ := by simp [hcs, Source.skipBlanks, hc]
  have hnext : Source.next ⟨1, cs ++ rest⟩ = (.token ⟨k, 1⟩, ⟨1 + cs.length, rest⟩) :=
    Source.next_eq_token.2 ⟨cs, congrArg Source.rest hskip, h, (congrArg Source.col hskip).symm, rfl⟩
  rw [kindsFrom, Source.line_of_token hnext, ← kinds_line (1 + cs.length)]
  rfl

theorem kindsFrom_blank (cs : List Char) : kindsFrom (' ' :: cs) = kindsFrom cs := by
  rw [← kinds_line 2 cs]
  exact congrArg (kinds ·.tokens)
    (Source.line_congr (Source.skipBlanks_append_of_all (u := [' ']) (by simp [Source.isBlank])))

/-- A text that is a lexeme by itself is one in front of everything that breaks it. -/
theorem spells_lexeme (h : Lexeme k s.toList []) : Spells s [k] := fun _ hv => kindsFrom_lexeme (h.append hv)

theorem Spells.blank (h : Spells s ks) (h' : Spells t ls) : Spells (s ++ " " ++ t) (ks ++ ls) := by
  intro v hv
  have hcs : (s ++ " " ++ t).toList ++ v = s.toList ++ ' ' :: (t.toList ++ v) := by simp
  rw [hcs, h _ (by simpa using Source.breaks_of_isBlank rfl), kindsFrom_blank, h' v hv, List.append_assoc]

theorem Spells.group (h : Spells s ks) :
    Spells ("(" ++ s ++ ")") (.symbol .openParen :: (ks ++ [.symbol .closeParen])) := by
  intro v hv
  have hcs : ("(" ++ s ++ ")").toList ++ v = ['('] ++ (s.toList ++ ([')'] ++ v)) := by simp
  have hopen : Lexeme (.symbol .openParen) ['('] (s.toList ++ ([')'] ++ v)) := .symbol .openParen _
  have hclose : Lexeme (.symbol .closeParen) [')'] v := .symbol .closeParen v
  have hbreaks : ∀ c ∈ ([')'] ++ v).head?, Source.breaks c = true := by simpa using by decide +kernel
  rw [hcs, kindsFrom_lexeme hopen, h _ hbreaks, kindsFrom_lexeme hclose]
  simp

/-! ## Words and integers -/

theorem spells_keyword (k : Keyword) : Spells k.text [.keyword k] := by
  obtain ⟨c, cs, hs, hc, hcs⟩ := Name.letters k.ofString?_name
  have hs : k.text.toList = c :: cs := hs
  refine spells_lexeme ?_
  rw [hs]
  exact .keyword (by rw [← hs, String.ofList_toList]) hc ⟨hcs, nofun⟩

theorem spells_symbol (y : Symbol) : Spells y.text [.symbol y] := spells_lexeme (.symbol y [])

theorem spells_name {x : Name} (h : x.IsFree) : Spells x.text [.name x] := by
  obtain ⟨hx, hfree⟩ := h
  obtain ⟨c, cs, hs, hc, hcs⟩ := Name.letters hx
  refine spells_lexeme ?_
  rw [hs]
  exact .name (by rw [← hs, String.ofList_toList]) hfree hc ⟨hcs, nofun⟩

theorem repr_digits (m : Nat) : ∃ c cs, m.repr.toList = c :: cs ∧ c.isDigit = true ∧
    (∀ d ∈ cs, d.isDigit = true) ∧ Decimal.value (c :: cs) = m := by
  have hdigits : ∀ d ∈ Nat.toDigits 10 m, d.isDigit = true := fun d hd =>
    Nat.isDigit_of_mem_toDigits (by decide) (by decide) hd
  have hvalue : Decimal.value (Nat.toDigits 10 m) = m := Nat.ofDigitChars_ten_toDigits
  rw [Nat.repr_eq_ofList_toDigits, String.toList_ofList]
  rcases hs : Nat.toDigits 10 m with _ | ⟨c, cs⟩
  · exact absurd hs Nat.toDigits_ne_nil
  · rw [hs] at hdigits hvalue
    obtain ⟨hc, hcs⟩ := List.forall_mem_cons.1 hdigits
    exact ⟨c, cs, rfl, hc, hcs, hvalue⟩

/-- An integer is written with digits, behind a minus sign if it is negative. -/
theorem toString_digits (n : Int64) : ∃ c cs, c.isDigit = true ∧ (∀ d ∈ cs, d.isDigit = true) ∧
    ((toString n.toInt).toList = c :: cs ∧ Decimal.int64? false (c :: cs) = some n ∨
      (toString n.toInt).toList = '-' :: c :: cs ∧ Decimal.int64? true (c :: cs) = some n) := by
  rw [Int.toString_eq_repr, Int.repr_eq_if]
  split
  · next hn =>
    obtain ⟨c, cs, hs, hc, hcs, hvalue⟩ := repr_digits n.toInt.toNat
    refine ⟨c, cs, hc, hcs, .inl ⟨hs, Decimal.int64?_eq_some.2 ?_⟩⟩
    rw [Decimal.signed, hvalue]
    exact (Int.toNat_of_nonneg hn).symm
  · next hn =>
    obtain ⟨c, cs, hs, hc, hcs, hvalue⟩ := repr_digits (-n.toInt).toNat
    refine ⟨c, cs, hc, hcs, .inr ⟨?_, Decimal.int64?_eq_some.2 ?_⟩⟩
    · rw [String.toList_append, hs]
      rfl
    · rw [Decimal.signed, if_pos rfl, hvalue, Int.toNat_of_nonneg (by omega), Int.neg_neg]

theorem spells_integer (n : Int64) : Spells (toString n.toInt) [.integer n] := by
  obtain ⟨c, cs, hc, hcs, ⟨hs, hn⟩ | ⟨hs, hn⟩⟩ := toString_digits n
  all_goals
    have hrun : Run Char.isDigit cs [] := ⟨hcs, by simp⟩
    have hlexeme := Lexeme.integer hc hrun (Decimal.int64?_eq_some.1 hn)
    exact spells_lexeme (hs ▸ hlexeme)

/-! ## Operands -/

/-- A phrase may nest deeper than it does. -/
theorem Derives.mono {p : Phrase} (d : Derives p n ks e) (h : n ≤ m) : Derives p m ks e := by
  induction d generalizing m with
  | single _ ih => exact .single (ih h)
  | link _ _ ih₁ ih₂ => exact .link (ih₁ h) (ih₂ h)
  -- an operand needs one level for itself
  | _ =>
    obtain ⟨m, rfl⟩ : ∃ l, m = l + 1 := Nat.exists_eq_add_one.2 (by omega)
    constructor <;> solve_by_elim [Nat.le_of_succ_le_succ]

/-- A tree other than a chain is a single operand. -/
theorem Derives.operand (d : Derives .expression n ks e) (h : e.isChain = false) : Derives .operand n ks e := by
  cases d with
  | single d => exact d
  | link => cases h

theorem Derives.argument (d : Derives .operand n ks e) (h : e.isAtom = true) : Argument ks := by
  cases d with
  | name x => exact .name x []
  | integer i => exact .integer i []
  | group => exact .group _
  | _ => cases h

/-- In parentheses any tree is an operand; without them a chain is none. -/
theorem bracket_spelled {b : Bool} (hb : b = false → e.isChain = false) (hs : Spells e.source ks)
    (d : Derives .expression e.nesting ks e) :
    ∃ ls, Spells (bracket b e.source) ls ∧ (b = true → Argument ls) ∧
      Derives .operand (e.nesting + b.toNat) ls e := by
  cases b with
  | true => exact ⟨_, hs.group, fun _ => .group _, .group d⟩
  | false => exact ⟨ks, hs, nofun, d.operand (hb rfl)⟩

theorem operand_spelled (h : ∃ ks, Spells e.source ks ∧ Derives .expression e.nesting ks e) :
    ∃ ks, Spells (bracket e.isChain e.source) ks ∧ Derives .operand (e.nesting + e.isChain.toNat) ks e := by
  obtain ⟨ks, hs, d⟩ := h
  obtain ⟨ls, hls, -, d'⟩ := bracket_spelled id hs d
  exact ⟨ls, hls, d'⟩

theorem argument_spelled (h : ∃ ks, Spells e.source ks ∧ Derives .expression e.nesting ks e) :
    ∃ ks, Spells (bracket (!e.isAtom) e.source) ks ∧ Argument ks ∧
      Derives .operand (e.nesting + (!e.isAtom).toNat) ks e := by
  obtain ⟨ks, hs, d⟩ := h
  have hchain : (!e.isAtom) = false → e.isChain = false := by cases e <;> simp [isAtom, isChain]
  obtain ⟨ls, hls, harg, d'⟩ := bracket_spelled hchain hs d
  refine ⟨ls, hls, ?_, d'⟩
  cases hatom : e.isAtom with
  | true => exact d'.argument hatom
  | false => exact harg (by rw [hatom]; rfl)

/-! ## Trees -/

/-- The line of a tree is derivable, and the tree is what it denotes. -/
theorem source_spelled (hfree : e.errorFree = true) (hnames : ∀ x ∈ e.names, x.IsFree) :
    ∃ ks, Spells e.source ks ∧ Derives .expression e.nesting ks e := by
  induction e with
  | error => cases hfree
  | seq left right ihl ihr =>
    obtain ⟨hfl, hfr⟩ : left.errorFree = true ∧ right.errorFree = true := by simpa [errorFree] using hfree
    obtain ⟨ks, hks, dl⟩ := operand_spelled (ihl hfl fun x hx => hnames x (List.mem_append_left _ hx))
    obtain ⟨ls, hls, dr⟩ := ihr hfr fun x hx => hnames x (List.mem_append_right _ hx)
    refine ⟨ks ++ .symbol .andAnd :: ls, ?_, .link (dl.mono (Nat.le_max_left ..)) (dr.mono (Nat.le_max_right ..))⟩
    have hs := (hks.blank (spells_symbol .andAnd)).blank hls
    rw [List.append_assoc] at hs
    exact hs
  | assign x e ih =>
    obtain ⟨hx, hnames⟩ := List.forall_mem_cons.1 hnames
    obtain ⟨ks, hks, d⟩ := operand_spelled (ih hfree hnames)
    have hhead := ((spells_keyword .assign).blank (spells_name hx)).blank (spells_symbol .equals)
    exact ⟨_, hhead.blank hks, .single (.assign x d)⟩
  | buy x e ih =>
    obtain ⟨hx, hnames⟩ := List.forall_mem_cons.1 hnames
    obtain ⟨ks, hks, d⟩ := operand_spelled (ih hfree hnames)
    exact ⟨_, ((spells_keyword .buy).blank (spells_name hx)).blank hks, .single (.buy x d)⟩
  | sell x e ih =>
    obtain ⟨hx, hnames⟩ := List.forall_mem_cons.1 hnames
    obtain ⟨ks, hks, d⟩ := operand_spelled (ih hfree hnames)
    exact ⟨_, ((spells_keyword .sell).blank (spells_name hx)).blank hks, .single (.sell x d)⟩
  | rotate e ih =>
    obtain ⟨ks, hks, harg, d⟩ := argument_spelled (ih hfree hnames)
    exact ⟨_, (spells_keyword .rotate).blank hks, .single (.rotate harg d)⟩
  | move e ih =>
    obtain ⟨ks, hks, harg, d⟩ := argument_spelled (ih hfree hnames)
    exact ⟨_, (spells_keyword .move).blank hks, .single (.move harg d)⟩
  | name x => exact ⟨_, spells_name (hnames x List.mem_cons_self), .single (.name x)⟩
  | int i => exact ⟨_, spells_integer i, .single (.integer i)⟩
  | echo x =>
    exact ⟨_, (spells_keyword .echo).blank (spells_name (hnames x List.mem_cons_self)), .single (.echo x)⟩
  | help => exact ⟨_, spells_keyword .help, .single .help⟩
  | landmark => exact ⟨_, spells_keyword .landmark, .single .landmark⟩
  | inventory => exact ⟨_, spells_keyword .inventory, .single .inventory⟩
  | marketPrices => exact ⟨_, spells_keyword .marketPrices, .single .marketPrices⟩
  | cityPrices => exact ⟨_, spells_keyword .cityPrices, .single .cityPrices⟩
  | quit => exact ⟨_, spells_keyword .quit, .single .quit⟩
  | stop => exact ⟨_, spells_keyword .stop, .single .stop⟩

theorem Spells.kinds (h : Spells s ks) : Grammar.kinds (Line.ofString s).tokens = ks := by
  have hs := h [] (by simp)
  have hnil : kindsFrom [] = [] := rfl
  rwa [hnil, List.append_nil, List.append_nil] at hs

/-- No line of a tree has fewer operands open at once than `source` does. -/
theorem Derives.nesting_le {p : Phrase} (d : Derives p n ks e) :
    match p with
    | .expression => e.nesting ≤ n
    | .operand => e.nesting + e.isChain.toNat ≤ n ∧ (Argument ks → e.nesting + (!e.isAtom).toNat ≤ n) := by
  induction d with
  | quit | stop | help | landmark | inventory | marketPrices | cityPrices | echo =>
    exact ⟨by simp [nesting, isChain], nofun⟩
  | name | integer => simp [nesting, isChain, isAtom]
  | assign | buy | sell =>
    rename_i ih
    exact ⟨by simpa [nesting, isChain] using ih.1, nofun⟩
  | rotate harg _ ih | move harg _ ih =>
    exact ⟨by simpa [nesting, isChain] using ih.2 harg, nofun⟩
  | @group n ks e _ ih =>
    have hchain := Bool.toNat_le e.isChain
    have hatom := Bool.toNat_le (!e.isAtom)
    exact ⟨by omega, fun _ => by omega⟩
  | single _ ih => exact Nat.le_trans (Nat.le_add_right ..) ih.1
  | link _ _ ih₁ ih₂ => exact Nat.max_le.2 ⟨ih₁.1, ih₂⟩

end Grammar

namespace Expr

open Grammar

/-- A tree without errors whose names are free is read back from its line, unless more operands are open
at once than may be. -/
theorem ofString?_source {e : Expr} (hfree : e.errorFree = true) (hnames : ∀ x ∈ e.names, x.IsFree) :
    ofString? e.source = some e ↔ e.nesting ≤ maxNesting := by
  obtain ⟨ks, hs, d⟩ := source_spelled hfree hnames
  obtain ⟨hfree_iff, hread⟩ :=
    chain_eq_iff maxNesting (Line.ofString e.source).endCol (Line.ofString e.source).tokens
  rw [hs.kinds] at hfree_iff hread
  constructor
  · intro h
    rw [← ofLine?_eq_some h] at hfree_iff hread
    obtain ⟨e', d'⟩ := hfree_iff.1 hfree
    obtain rfl := hread e' d'
    exact d'.nesting_le
  · intro h
    obtain ⟨e', he'⟩ : ∃ e', ofString? e.source = some e' := by
      rw [← Option.ne_none_iff_exists']
      intro hnone
      have hnil := hs.kinds
      rw [ofLine?_eq_none.1 hnone] at hnil
      exact d.ne_nil hnil.symm
    rw [← ofLine?_eq_some he'] at hread
    exact he'.trans (congrArg some (hread e (d.mono h)))

/-- A chain on the left, a chain as a value and a statement as an argument, with the smallest integer. -/
theorem ofString?_source_left :
    let x : Name := ⟨"x"⟩
    let e := seq (seq (move (int Int64.minValue)) (name x)) (assign x (seq stop (rotate (buy x (name x)))))
    e.source = "(move -9223372036854775808 && x) && let x = (stop && rotate (buy x x))" ∧
      e.errorFree = true ∧ (∀ y ∈ e.names, y.IsFree) ∧ e.nesting = 6 ∧ ofString? e.source = some e := by
  intro x e
  have hnames : ∀ y ∈ e.names, y.IsFree := by decide +kernel
  exact ⟨by decide +kernel, rfl, hnames, rfl, (ofString?_source rfl hnames).2 (by decide)⟩

end Expr

end RobotShell
