import RobotShell.Interpreter.Run
import RobotShell.Proofs.Columns
import RobotShell.Proofs.Printing
/-!
# How tokens are spelled

Only the tokens of a line matter, and each token but an integer out of range has one canonical spelling.
So a line is read like its tokens written out with single blanks between them. An integer has many
spellings, of any length and with zeros in front: each is read as its exact value, unless that does not
fit into 64 bits.
-/

namespace RobotShell

open Grammar

/-! ## Integers -/

namespace Source

/-- A literal is one token, however long it is, and what follows its last digit is left unread. -/
theorem next_literal {s : Source} {negative : Bool} {ds rest : List Char} (hne : ds ≠ [])
    (hds : Run Char.isDigit ds rest) (hs : s.skipBlanks.rest = Decimal.literal negative ds ++ rest) :
    s.next = (.token ⟨integer negative ds, s.skipBlanks.col⟩,
      ⟨s.skipBlanks.col + (Decimal.literal negative ds).length, rest⟩) := by
  obtain ⟨c, ds, rfl⟩ := List.exists_cons_of_ne_nil hne
  have hc : c.isDigit = true := hds.all c List.mem_cons_self
  have hrun : Run Char.isDigit ds rest := ⟨fun d hd => hds.all d (List.mem_cons_of_mem c hd), hds.stop⟩
  exact next_eq_token.2 ⟨_, hs, integer_lexeme negative hc hrun, rfl, rfl⟩

end Source

/-- Wherever a literal stands, it is one token at the column of its first character, and reading goes on behind
its last digit. The token is the integer that the literal stands for, or, if that does not fit into 64 bits, the
complaint that it is out of range. So the text of an integer is a line whose tree is the integer, and in every
state this tree has it for its number. -/
theorem literal_read :
    (∀ (s : Source) (negative : Bool) (ds rest : List Char), ds ≠ [] → Run Char.isDigit ds rest →
      s.skipBlanks.rest = Decimal.literal negative ds ++ rest →
      ∃ k, s.next = (.token ⟨k, s.skipBlanks.col⟩, ⟨s.skipBlanks.col + (Decimal.literal negative ds).length, rest⟩) ∧
        (Decimal.Fits (Decimal.signed negative ds) →
          ∃ n, k = .integer n ∧ n.toInt = Decimal.signed negative ds) ∧
        (¬Decimal.Fits (Decimal.signed negative ds) →
          k = .outOfRange ∧ k.text = "integer literal out of range")) ∧
    ∀ n : Int64, Expr.ofString? (toString n.toInt) = some (.int n) ∧
      ∀ i : Interpreter, i.evaluate (.int n) = (some n, i) := by
  refine ⟨fun s negative ds rest hne hds hs => ?_, fun n => ⟨?_, fun i => ?_⟩⟩
  · refine ⟨_, Source.next_literal hne hds hs, fun hfits => ?_, fun hfits => ?_⟩
    · obtain ⟨n, hn⟩ := Decimal.fits_iff.1 hfits
      exact ⟨n, Source.integer_of_toInt hn, hn⟩
    · rw [Source.integer_of_not_fits hfits]
      exact ⟨rfl, rfl⟩
  · refine Derives.ofString? ?_
    rw [(spells_integer n).kinds]
    exact .single (.integer n)
  · simp [Interpreter.evaluate, Interpreter.value]

/-- The smallest integer with zeros in front, behind a blank and before a letter, and the literal one below it. -/
theorem literal_read_smallest :
    Source.next ⟨1, " -009223372036854775808x".toList⟩ = (.token ⟨.integer Int64.minValue, 2⟩, ⟨24, ['x']⟩) ∧
      Source.next ⟨1, "-9223372036854775809".toList⟩ = (.token ⟨.outOfRange, 1⟩, ⟨21, []⟩) := by
  constructor
  · obtain ⟨k, hnext, hin, -⟩ := literal_read.1 ⟨1, " -009223372036854775808x".toList⟩ true
      "009223372036854775808".toList ['x'] (by decide) (by decide) rfl
    obtain ⟨n, rfl, hn⟩ := hin (by decide)
    obtain rfl : n = Int64.minValue := Int64.toInt_inj.1 (hn.trans (by decide))
    exact hnext
  · obtain ⟨k, hnext, -, hout⟩ := literal_read.1 ⟨1, "-9223372036854775809".toList⟩ true
      "9223372036854775809".toList [] (by decide) (by decide) rfl
    obtain ⟨rfl, -⟩ := hout (by decide)
    exact hnext

/-! ## Tokens -/

/-- The tokens in their canonical spelling, with a blank between each two. -/
def Line.spelled (l : Line) : String := " ".intercalate (l.tokens.map (·.kind.text))

/-- A token is spelled by its text, unless that is the complaint that it is out of range. -/
theorem Lexeme.spells {k : Token.Kind} {cs rest : List Char} (h : Lexeme k cs rest) (hk : k ≠ .outOfRange) :
    Spells k.text [k] := by
  cases h with
  | symbol y => exact spells_symbol y
  | integer => exact spells_integer _
  | outOfRange => exact absurd rfl hk
  | keyword => exact spells_keyword _
  | @name x c cs _ htext hfree hc hcs =>
    refine spells_lexeme ?_
    have htext' : x.text.toList = c :: cs := by simp [htext]
    exact htext' ▸ .name htext hfree hc ⟨hcs.all, by simp⟩
  | @stray c rest hc =>
    have hsymbol : ∀ y : Symbol, ¬y.text.toList <+: [c] := fun y hy => hc.symbol y (hy.trans ⟨rest, rfl⟩)
    have htext : (Token.Kind.stray c).text.toList = [c] := by simp [Token.Kind.text, Char.toString]
    exact spells_lexeme (htext ▸ .stray { hc with symbol := hsymbol, minus := by simp })

theorem spells_intercalate {ks : List Token.Kind} (h : ∀ k ∈ ks, Spells k.text [k]) :
    Spells (" ".intercalate (ks.map Token.Kind.text)) ks := by
  induction ks with
  | nil => exact fun v _ => rfl
  | cons k ks ih =>
    obtain ⟨hk, hks⟩ := List.forall_mem_cons.1 h
    cases ks with
    | nil => simpa using hk
    | cons l ks =>
      have hrest := hk.blank (ih hks)
      simpa [String.append_assoc] using hrest

/-- A line without an integer out of range has the same tokens as its tokens written out with single blanks between
them, and so it has the same tree, apart from columns. -/
theorem Line.ofString_spelled {s : String} (h : ∀ t ∈ (Line.ofString s).tokens, t.kind ≠ .outOfRange) :
    kinds (Line.ofString (Line.ofString s).spelled).tokens = kinds (Line.ofString s).tokens ∧
      (Expr.ofString? (Line.ofString s).spelled).map (Expr.mapCols fun _ => 0) =
        (Expr.ofString? s).map (Expr.mapCols fun _ => 0) := by
  have hspells : ∀ k ∈ kinds (Line.ofString s).tokens, Spells k.text [k] := by
    intro k hk
    obtain ⟨t, ht, rfl⟩ := List.mem_map.1 hk
    obtain ⟨cs, rest, hlexeme⟩ := Source.line_lexeme (.ofString s) t ht
    exact hlexeme.spells (h t ht)
  have hspelled :
      (Line.ofString s).spelled = " ".intercalate ((kinds (Line.ofString s).tokens).map Token.Kind.text) := by
    rw [spelled, kinds, List.map_map]
    rfl
  have hkinds := (spells_intercalate hspells).kinds
  rw [← hspelled] at hkinds
  exact ⟨hkinds, Expr.ofLine?_mapCols hkinds⟩

/-- Zeros in front, a minus zero, an `&` behind an `&&`, and a number that is neither digit nor letter. -/
theorem Line.ofString_spelled_strays :
    let s := "let  x=007&&(move -0)&&& ²3 @\rstop"
    (∀ t ∈ (Line.ofString s).tokens, t.kind ≠ .outOfRange) ∧
      (Line.ofString s).spelled = "let x = 7 && ( move 0 ) && & ² 3 @" ∧
      kinds (Line.ofString "let x = 7 && ( move 0 ) && & ² 3 @").tokens = kinds (Line.ofString s).tokens ∧
      (Expr.ofString? "let x = 7 && ( move 0 ) && & ² 3 @").map (Expr.mapCols fun _ => 0) =
        (Expr.ofString? s).map (Expr.mapCols fun _ => 0) := by
  intro s
  have hrange : ∀ t ∈ (Line.ofString s).tokens, t.kind ≠ .outOfRange := by decide +kernel
  have hspelled : (Line.ofString s).spelled = "let x = 7 && ( move 0 ) && & ² 3 @" := by decide +kernel
  have h := Line.ofString_spelled hrange
  rw [hspelled] at h
  exact ⟨hrange, hspelled, h⟩

end RobotShell
