import RobotShell.Proofs.Printing
/-!
# Trees that come from lines

Not every tree is read from a line. One that is has names that are free, messages that quote at most a
token of the line, and no error node where an operand is expected: a statement whose operand cannot be
read is an error itself. `Formed` says so node by node, and every rule that reads keeps to it.
-/

namespace RobotShell

open Unicode

/-- Whether the token is a name or a keyword. -/
def Token.Kind.isWord : Token.Kind → Bool
  | keyword _ | name _ => true
  | _ => false

/-- What may stand on a line: a name is no keyword, and no character of it ends the line. -/
def Token.Kind.Proper : Token.Kind → Prop
  | .name x => x.IsFree
  | .stray c => Source.isLineEnd c = false
  | _ => True

/-- A complaint that quotes a token quotes a proper one. -/
def Complaint.Proper : Complaint → Prop
  | .unexpected kind => kind.Proper
  | _ => True

namespace Expr

/-- The tree could have been read from a line. -/
inductive Formed : Expr → Prop
  | error {c : Complaint} (col : Nat) (hc : c.Proper) : Formed (.error c.text col)
  | seq {left right : Expr} (hl : Formed left) (hr : Formed right) : Formed (.seq left right)
  | assign {x : Name} {e : Expr} (hx : x.IsFree) (he : Formed e) (hread : e.isError = false) : Formed (.assign x e)
  | name {x : Name} (hx : x.IsFree) : Formed (.name x)
  | int (n : Int64) : Formed (.int n)
  | help : Formed .help
  | echo {x : Name} (hx : x.IsFree) : Formed (.echo x)
  | landmark : Formed .landmark
  | rotate {e : Expr} (he : Formed e) (hread : e.isError = false) : Formed (.rotate e)
  | move {e : Expr} (he : Formed e) (hread : e.isError = false) : Formed (.move e)
  | buy {x : Name} {e : Expr} (hx : x.IsFree) (he : Formed e) (hread : e.isError = false) : Formed (.buy x e)
  | sell {x : Name} {e : Expr} (hx : x.IsFree) (he : Formed e) (hread : e.isError = false) : Formed (.sell x e)
  | inventory : Formed .inventory
  | marketPrices : Formed .marketPrices
  | cityPrices : Formed .cityPrices
  | quit : Formed .quit
  | stop : Formed .stop

/-- No operand of a statement is an error node, at any depth. -/
def operandsRead : Expr → Bool
  | seq left right => left.operandsRead && right.operandsRead
  | assign _ e | rotate e | move e | buy _ e | sell _ e => !e.isError && e.operandsRead
  | _ => true

theorem Formed.operandsRead {e : Expr} (h : Formed e) : e.operandsRead = true := by
  induction h with
  | seq _ _ ihl ihr => simp [Expr.operandsRead, ihl, ihr]
  | assign _ _ hread ih | rotate _ hread ih | move _ hread ih | buy _ _ hread ih | sell _ _ hread ih =>
    simp [Expr.operandsRead, hread, ih]
  | _ => rfl

end Expr

/-! ## The tokens of a line -/

/-- The text of a word, be it a keyword or not, forms a name. -/
theorem Lexeme.ofString?_text {k : Token.Kind} {cs rest : List Char} (h : Lexeme k cs rest) (hk : k.isWord = true) :
    Name.ofString? k.text = some ⟨k.text⟩ := by
  refine Name.ofString?_eq_some.2 ⟨?_, rfl⟩
  cases h with
  | keyword htext hc hcs | name htext _ hc hcs =>
    simpa [Token.Kind.text, htext, Name.spells, hc] using hcs.all
  | symbol | integer | outOfRange | stray => cases hk

theorem Lexeme.proper {k : Token.Kind} {cs rest : List Char} (h : Lexeme k cs rest) : k.Proper := by
  cases k with
  | name x =>
    have hx := h.ofString?_text rfl
    cases h with
    | name _ hfree => exact ⟨hx, hfree⟩
  | stray c =>
    cases h with
    | stray hc => exact hc.lineEnd
  | _ => trivial

namespace Source

theorem line_proper (s : Source) : ∀ t ∈ s.line.tokens, t.kind.Proper := by
  intro t ht
  obtain ⟨cs, rest, hlexeme⟩ := s.line_lexeme t ht
  exact hlexeme.proper

end Source

namespace Expr

variable {r : Rule} {s : Scope} {ts rest : List Token} {p : Expr × List Token}

/-- The tokens may stand on a line. -/
def Proper (ts : List Token) : Prop := ∀ t ∈ ts, t.kind.Proper

/-- The rule reads formed trees from proper tokens. -/
def Forms (r : Rule) : Prop := ∀ s ts, Proper ts → Formed (r s ts).1

theorem Proper.suffix (h : Proper ts) (hs : rest <:+ ts) : Proper rest := fun t ht => h t (hs.subset ht)

theorem Proper.tail {t : Token} (h : Proper (t :: ts)) : Proper ts := h.suffix (List.suffix_cons t ts)

/-! ## The rules -/

theorem failHere_formed {c : Complaint} (hc : c.Proper) : Formed (s.failHere c ts).1 := .error _ hc

theorem wrap_formed {build : Expr → Expr} (hb : ∀ e, Formed e → e.isError = false → Formed (build e))
    (hp : Formed p.1) : Formed (wrap build p).1 := by
  cases hE : p.1.isError with
  | true => rwa [wrap_error hE]
  | false =>
    rw [wrap_of_not_error hE]
    exact hb p.1 hp hE

theorem named_formed {andThen : Name → List Token → Expr × List Token} (hts : Proper ts)
    (h : ∀ x rest, x.IsFree → Proper rest → Formed (andThen x rest).1) : Formed (named s ts andThen).1 := by
  unfold named
  split
  · next x col rest => exact h x rest (hts _ List.mem_cons_self) hts.tail
  · exact failHere_formed trivial

theorem argument_formed (hr : Forms r) {build : Expr → Expr}
    (hb : ∀ e, Formed e → e.isError = false → Formed (build e)) (hts : Proper ts) :
    Formed (argument r build s ts).1 := by
  unfold argument
  split
  · exact failHere_formed trivial
  · split
    · exact wrap_formed hb (hr s _ hts)
    · exact failHere_formed trivial

theorem complaintAbout_proper {k : Token.Kind} (hk : k.Proper) : (complaintAbout k).Proper := by
  cases k <;> exact hk

theorem statement_formed (hs : Shrinks r) (hr : Forms r) : Forms (statement r) := by
  intro s ts hts
  rcases atEnd_or s (r s ts).2 with hend | ⟨t, rest, hrest, ht⟩
  · rw [statement_of_atEnd hend]
    exact hr s ts hts
  · have hmem : t ∈ ts := (hs s ts).subset (hrest ▸ List.mem_cons_self)
    rw [statement_of_not_end hrest ht]
    exact .error _ (complaintAbout_proper (hts t hmem))

theorem chain_formed (hs : Shrinks r) (hr : Forms r) : Forms (chain r) := by
  intro s ts
  refine chain_induction hs s (P := fun ts p => Proper ts → Formed p.1) ?_ ?_ ts
  · exact fun ts _ hts => statement_formed hs hr s ts hts
  · intro ts t rest hrest _ ih hts
    have hsuf : t :: rest <:+ ts := hrest ▸ statement_suffix hs s ts
    exact .seq (statement_formed hs hr s ts hts) (ih (hts.suffix hsuf).tail)

theorem group_formed (hs : Shrinks r) (hr : Forms r) : Forms (group r) := by
  intro s ts hts
  have hc := chain_formed hs hr s.inside ts hts
  rcases chain_rest hs s.inside ts with h | ⟨-, col, rest, h⟩
  · rw [group_unclosed h]
    cases (chain r s.inside ts).1.isError with
    | true => exact hc
    | false => exact .error _ trivial
  · rw [group_closed h]
    exact hc

theorem keyworded_formed (hr : Forms r) (k : Keyword) : Forms (keyworded r k) := by
  intro s ts hts
  cases k with
  | quit => exact .quit
  | stop => exact .stop
  | help => exact .help
  | landmark => exact .landmark
  | inventory => exact .inventory
  | marketPrices => exact .marketPrices
  | cityPrices => exact .cityPrices
  | echo => exact named_formed hts fun x rest hx _ => .echo hx
  | rotate => exact argument_formed hr (fun e => .rotate) hts
  | move => exact argument_formed hr (fun e => .move) hts
  | buy => exact named_formed hts fun x rest hx hrest => wrap_formed (fun e => .buy hx) (hr s rest hrest)
  | sell => exact named_formed hts fun x rest hx hrest => wrap_formed (fun e => .sell hx) (hr s rest hrest)
  | assign =>
    refine named_formed hts fun x rest hx hrest => ?_
    split
    · exact wrap_formed (fun e => .assign hx) (hr s _ hrest.tail)
    · exact failHere_formed trivial

theorem primary_formed (hs : Shrinks r) (hr : Forms r) : Forms (primary r) := by
  intro s ts hts
  rcases ts with _ | ⟨⟨kind, col⟩, rest⟩
  · exact failHere_formed trivial
  · cases kind with
    | keyword k => exact keyworded_formed hr k s rest hts.tail
    | name x => exact .name (hts _ List.mem_cons_self)
    | integer n => exact .int n
    | outOfRange | stray c => exact .error _ trivial
    | symbol y =>
      cases y with
      | openParen => exact group_formed hs hr s rest hts.tail
      | equals | andAnd | closeParen => exact .error _ trivial

theorem operand_formed (levels : Nat) : Forms (operand levels) := by
  induction levels with
  | zero => exact fun s ts _ => failHere_formed trivial
  | succ levels ih => exact primary_formed (operand_suffix levels) ih

/-! ## Lines -/

/-- The tree of a line is formed. -/
theorem ofString?_formed {line : String} {e : Expr} (h : ofString? line = some e) : Formed e := by
  rw [ofLine?_eq_some h]
  exact chain_formed (operand_suffix maxNesting) (operand_formed maxNesting) _ _ (Source.line_proper _)

end Expr

end RobotShell
