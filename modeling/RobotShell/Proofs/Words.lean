import RobotShell.Proofs.Formed
/-!
# Names as they are checked and as they are read

A text is checked to be a name character by character. On a line nothing is checked: a name is whatever word is
read there and is no keyword. Both mean the same texts. A text passes the check exactly if the line made of it is
one word, so every name in a tree that was read from a line would pass it, wherever it stands in the tree.
-/

namespace RobotShell

open Unicode

variable {s : String}

/-! ## Words -/

/-- A word has the text that it was read from. -/
theorem Source.text_word (cs : List Char) : (word cs).text = String.ofList cs ∧ (word cs).isWord = true := by
  dsimp only [word]
  cases hk : Keyword.ofString? (String.ofList cs) with
  | some k => exact ⟨Keyword.text_of_ofString? hk, rfl⟩
  | none => exact ⟨rfl, rfl⟩

/-- A text that passes the check is read as one word, up to its end. -/
theorem line_of_name (h : Name.ofString? s = some ⟨s⟩) :
    Line.ofString s = ⟨[⟨Source.word s.toList, 1⟩], s.toList.length + 1⟩ := by
  obtain ⟨c, cs, hs, hc, hcs⟩ := Name.letters (x := ⟨s⟩) h
  have hs : s.toList = c :: cs := hs
  have hlexeme : Lexeme (Source.word (c :: cs)) (c :: cs) [] := Source.word_lexeme hc ⟨hcs, nofun⟩
  have hblank : Source.isBlank c = false := (plain_of_isAlphanumeric (isAlphanumeric_of_isAlphabetic hc)).1
  have hskip : (Source.ofString s).skipBlanks = ⟨1, c :: cs⟩ := by
    simp [Source.ofString, Source.skipBlanks, hs, hblank]
  have hnext : (Source.ofString s).next =
      (.token ⟨Source.word (c :: cs), 1⟩, ⟨1 + (c :: cs).length, []⟩) := by
    refine Source.next_eq_token.2 ⟨c :: cs, ?_, hlexeme, ?_, rfl⟩
    · rw [hskip, List.append_nil]
    · rw [hskip]
  have hend : Source.line ⟨1 + (c :: cs).length, []⟩ = ⟨[], 1 + (c :: cs).length⟩ :=
    Source.line_of_lineEnd (Source.next_of_rest_eq_nil rfl)
  rw [Line.ofString, Source.line_of_token hnext, hend, hs, Nat.add_comm]

/-- A text passes the check exactly if it is one word as a line. -/
theorem name_iff_line : Name.ofString? s = some ⟨s⟩ ↔
    ∃ k : Token.Kind, k.isWord = true ∧ k.text = s ∧ (Line.ofString s).tokens = [⟨k, 1⟩] := by
  constructor
  · intro h
    obtain ⟨htext, hword⟩ := Source.text_word s.toList
    exact ⟨Source.word s.toList, hword, htext.trans String.ofList_toList, by rw [line_of_name h]⟩
  · rintro ⟨k, hk, rfl, hline⟩
    have hmem : ⟨k, 1⟩ ∈ (Line.ofString k.text).tokens := hline ▸ List.mem_singleton_self _
    obtain ⟨cs, rest, hlexeme⟩ := Source.line_lexeme (.ofString k.text) _ hmem
    exact hlexeme.ofString?_text hk

/-- The line of a text is one keyword exactly if the text is that keyword. -/
theorem keyword_iff_line {k : Keyword} : Keyword.ofString? s = some k ↔
    k.text = s ∧ (Line.ofString s).tokens = [⟨.keyword k, 1⟩] := by
  constructor
  · intro h
    obtain rfl := Keyword.text_of_ofString? h
    have hword : Source.word k.text.toList = .keyword k := by
      simp [Source.word, String.ofList_toList, Keyword.ofString?_text]
    exact ⟨rfl, by rw [line_of_name k.ofString?_name, hword]⟩
  · rintro ⟨rfl, -⟩
    exact Keyword.ofString?_text k

/-! ## Trees -/

/-- The names in a tree that could have been read are free. -/
theorem Expr.Formed.names_free {e : Expr} (h : e.Formed) : ∀ x ∈ e.names, x.IsFree := by
  induction h with
  | seq _ _ ihl ihr => exact List.forall_mem_append.2 ⟨ihl, ihr⟩
  | assign hx _ _ ih | buy hx _ _ ih | sell hx _ _ ih => exact List.forall_mem_cons.2 ⟨hx, ih⟩
  | rotate _ _ ih | move _ _ ih => exact ih
  | name hx | echo hx => exact List.forall_mem_singleton.2 hx
  | _ => exact nofun

/-- The check accepts a text exactly if the text as a line is one word that spans it, a name or a keyword. The word
is a keyword exactly if the text is looked up as one. And so every name in the tree of a line, at whatever depth,
is accepted by the check and is no keyword. -/
theorem Name.ofString?_iff_word :
    (∀ s : String, (Name.ofString? s).isSome = true ↔
      ∃ k : Token.Kind, k.isWord = true ∧ k.text = s ∧ (Line.ofString s).tokens = [⟨k, 1⟩]) ∧
    (∀ (s : String) (k : Keyword), Keyword.ofString? s = some k ↔
      k.text = s ∧ (Line.ofString s).tokens = [⟨.keyword k, 1⟩]) ∧
    ∀ (line : String) (e : Expr), Expr.ofString? line = some e →
      ∀ x ∈ e.names, Name.ofString? x.text = some x ∧ Keyword.ofString? x.text = none := by
  refine ⟨fun s => ?_, fun s k => keyword_iff_line, fun line e he => ?_⟩
  · rw [← name_iff_line, Option.isSome_iff_exists]
    constructor
    · rintro ⟨x, hx⟩
      obtain ⟨-, rfl⟩ := ofString?_eq_some.1 hx
      exact hx
    · exact fun h => ⟨⟨s⟩, h⟩
  · exact (Expr.ofString?_formed he).names_free

/-- Names behind an error node, in the value of a `let` and in an operand, with letters that are not ASCII and with a
keyword at the front. -/
theorem Name.ofString?_iff_word_buried :
    let e : Expr := .assign ⟨"größe"⟩ (.seq (.error "expected keyword or identifier" 14)
      (.seq (.buy ⟨"letter"⟩ (.name ⟨"x2"⟩)) (.rotate (.name ⟨"größe"⟩))))
    Expr.ofString? "let größe = (@ && buy letter x2 && rotate größe)" = some e ∧
      e.names = [⟨"größe"⟩, ⟨"letter"⟩, ⟨"x2"⟩, ⟨"größe"⟩] ∧
      ∀ x ∈ e.names, Name.ofString? x.text = some x ∧ Keyword.ofString? x.text = none := by
  intro e
  have he : Expr.ofString? "let größe = (@ && buy letter x2 && rotate größe)" = some e := by decide +kernel
  exact ⟨he, rfl, Name.ofString?_iff_word.2.2 _ e he⟩

/-- A digit in front, a sign inside, and a blank behind. -/
example : ["2x", "x-y", "x "].map Name.ofString? = [none, none, none] ∧
    (Line.ofString "x ").tokens = [⟨.name ⟨"x"⟩, 1⟩] := by decide +kernel

end RobotShell
