import RobotShell.Proofs.Lines
import RobotShell.Proofs.Rules
import RobotShell.Statement
/-!
# Columns are only carried along

No rule looks at a column: columns are copied from tokens into error nodes and nothing else. So
reading commutes with any change `f` of the columns, `operand_moves`. With `f` constant this says
that the kinds of the tokens alone decide what is read, apart from the columns of its errors.
-/

namespace RobotShell

/-- The tree with the columns of its error nodes changed. -/
def Expr.mapCols (f : Nat → Nat) : Expr → Expr
  | .error message col => .error message (f col)
  | .seq left right => .seq (left.mapCols f) (right.mapCols f)
  | .assign x e => .assign x (e.mapCols f)
  | .rotate e => .rotate (e.mapCols f)
  | .move e => .move (e.mapCols f)
  | .buy x e => .buy x (e.mapCols f)
  | .sell x e => .sell x (e.mapCols f)
  | e => e

/-- The statement with the columns of its errors changed. -/
def Statement.mapCols (f : Nat → Nat) : Statement → Statement
  | .malformed message col => .malformed message (f col)
  | .unrecognized e => .unrecognized (e.mapCols f)
  | .assign x e => .assign x (e.mapCols f)
  | .rotate e => .rotate (e.mapCols f)
  | .move e => .move (e.mapCols f)
  | .buy x e => .buy x (e.mapCols f)
  | .sell x e => .sell x (e.mapCols f)
  | s => s

/-- The statements without the columns of their errors. -/
def unplaced (ss : List Statement) : List Statement := ss.map (Statement.mapCols fun _ => 0)

@[simp]
theorem unplaced_append (ss ss' : List Statement) : unplaced (ss ++ ss') = unplaced ss ++ unplaced ss' :=
  List.map_append

namespace Expr

variable {r : Rule} {s : Scope} {ts : List Token} {f : Nat → Nat}

theorem statements_mapCols (f : Nat → Nat) (e : Expr) :
    (e.mapCols f).statements = e.statements.map (Statement.mapCols f) := by
  induction e with
  | seq left right ihl ihr => rw [mapCols, statements_seq, ihl, ihr, statements_seq, List.map_append]
  | _ => simp [mapCols, statements, flatten, Statement.mapCols]

theorem isError_mapCols (f : Nat → Nat) (e : Expr) : (e.mapCols f).isError = e.isError := by
  cases e <;> rfl

/-- The scope with the column of its end changed. -/
def Scope.mapCol (f : Nat → Nat) (s : Scope) : Scope := ⟨f s.endCol, s.grouped⟩

@[simp]
theorem Scope.grouped_mapCol (f : Nat → Nat) (s : Scope) : (s.mapCol f).grouped = s.grouped := rfl

/-- What a rule gives, with the columns in it changed. -/
def moved (f : Nat → Nat) (p : Expr × List Token) : Expr × List Token :=
  (p.1.mapCols f, p.2.map (Token.mapCol f))

/-- The rule reads the same wherever its tokens stand. -/
def Moves (f : Nat → Nat) (r : Rule) : Prop :=
  ∀ s ts, r (s.mapCol f) (ts.map (Token.mapCol f)) = moved f (r s ts)

/-! ## Recovery -/

theorem resume_moved (opened : Nat) (ts : List Token) :
    (s.mapCol f).resume opened (ts.map (Token.mapCol f)) = (s.resume opened ts).map (Token.mapCol f) := by
  induction ts generalizing opened with
  | nil => rfl
  | cons t rest ih =>
    obtain ⟨kind, col⟩ := t
    cases kind with
    | symbol y =>
      cases y <;> cases opened <;>
        simp [Scope.resume, Token.mapCol, ih, apply_ite (List.map _)]
    | _ => simp [Scope.resume, Token.mapCol, ih]

theorem fail_moved (c : Complaint) (col : Nat) (ts : List Token) :
    (s.mapCol f).fail c (f col) (ts.map (Token.mapCol f)) = moved f (s.fail c col ts) := by
  simp [Scope.fail, moved, mapCols, resume_moved]

theorem failHere_moved (c : Complaint) (ts : List Token) :
    (s.mapCol f).failHere c (ts.map (Token.mapCol f)) = moved f (s.failHere c ts) := by
  have hcol : (s.mapCol f).col (ts.map (Token.mapCol f)) = f (s.col ts) := by cases ts <;> rfl
  rw [Scope.failHere, hcol, fail_moved]
  rfl

/-! ## Rules -/

theorem wrap_moved (build : Expr → Expr) (hb : ∀ e, (build e).mapCols f = build (e.mapCols f))
    (p : Expr × List Token) : wrap build (moved f p) = moved f (wrap build p) := by
  cases h : p.1.isError with
  | true => rw [wrap_error h, wrap_error (by rwa [moved, isError_mapCols])]
  | false =>
    rw [wrap_of_not_error h, wrap_of_not_error (by rwa [moved, isError_mapCols])]
    simp [moved, hb]

theorem named_moved {andThen andThen' : Name → List Token → Expr × List Token}
    (h : ∀ x rest, andThen' x (rest.map (Token.mapCol f)) = moved f (andThen x rest)) (ts : List Token) :
    named (s.mapCol f) (ts.map (Token.mapCol f)) andThen' = moved f (named s ts andThen) := by
  rcases ts with _ | ⟨⟨kind, col⟩, rest⟩
  · exact failHere_moved _ []
  · cases kind with
    | name x => exact h x rest
    | _ => exact failHere_moved _ (_ :: rest)

theorem argument_moved (hr : Moves f r) (build : Expr → Expr)
    (hb : ∀ e, (build e).mapCols f = build (e.mapCols f)) (ts : List Token) :
    argument r build (s.mapCol f) (ts.map (Token.mapCol f)) = moved f (argument r build s ts) := by
  rcases ts with _ | ⟨t, rest⟩
  · exact failHere_moved _ []
  · by_cases h : startsArgument t.kind = true
    · have hop := hr s (t :: rest)
      rw [List.map_cons] at hop ⊢
      simp only [argument, Token.mapCol, h, if_true] at hop ⊢
      rw [hop, wrap_moved build hb]
    · have hfail := failHere_moved (s := s) (f := f) .argumentExpected (t :: rest)
      rw [List.map_cons] at hfail ⊢
      simp only [argument, Token.mapCol, h] at hfail ⊢
      exact hfail

theorem atEnd_moved : AtEnd (s.mapCol f) (ts.map (Token.mapCol f)) ↔ AtEnd s ts := by
  cases ts <;> simp [AtEnd, Token.mapCol, Scope.endsStatement, Scope.mapCol]

theorem noLink_moved : NoLink (ts.map (Token.mapCol f)) ↔ NoLink ts := by
  cases ts <;> simp [NoLink, Token.mapCol]

theorem statement_moved (hr : Moves f r) : Moves f (statement r) := by
  intro s ts
  have hop := hr s ts
  rcases atEnd_or s (r s ts).2 with h | ⟨t, rest, h, ht⟩
  · rw [statement_of_atEnd h, statement_of_atEnd (by rw [hop]; exact atEnd_moved.2 h), hop]
  · have h' : (r (s.mapCol f) (ts.map (Token.mapCol f))).2 = t.mapCol f :: rest.map (Token.mapCol f) := by
      rw [hop, moved, h]; rfl
    rw [statement_of_not_end h ht, statement_of_not_end h' ht, ← fail_moved]
    rfl

theorem chain_moved (hs : Shrinks r) (hr : Moves f r) : Moves f (chain r) := by
  intro s ts
  refine chain_induction hs s (P := fun ts p =>
    chain r (s.mapCol f) (ts.map (Token.mapCol f)) = moved f p) ?_ ?_ ts
  · intro ts h
    have hst := statement_moved hr s ts
    rw [chain_last (by rw [hst]; exact noLink_moved.2 h), hst]
  · intro ts t rest h ht ih
    have hst := statement_moved hr s ts
    have hl : (statement r (s.mapCol f) (ts.map (Token.mapCol f))).2 =
        t.mapCol f :: rest.map (Token.mapCol f) := by
      rw [hst, moved, h]; rfl
    rw [chain_link hs hl ht, ih, hst]
    simp [moved, mapCols]

theorem group_moved (hs : Shrinks r) (hr : Moves f r) : Moves f (group r) := by
  intro s ts
  have hc : chain r (s.mapCol f).inside (ts.map (Token.mapCol f)) = moved f (chain r s.inside ts) :=
    chain_moved hs hr s.inside ts
  rcases chain_rest hs s.inside ts with h | ⟨-, col, rest, h⟩
  · rw [group_unclosed h, group_unclosed (by rw [hc, moved, h]; rfl), hc]
    cases hE : (chain r s.inside ts).1.isError <;> simp [moved, isError_mapCols, hE, mapCols, Scope.mapCol]
  · have h' : (chain r (s.mapCol f).inside (ts.map (Token.mapCol f))).2 =
        ⟨.symbol .closeParen, f col⟩ :: rest.map (Token.mapCol f) := by
      rw [hc, moved, h]; rfl
    rw [group_closed h, group_closed h', hc]
    rfl

theorem keyworded_moved (hr : Moves f r) (k : Keyword) : Moves f (keyworded r k) := by
  intro s ts
  cases k with
  | quit | stop | help | landmark | inventory | marketPrices | cityPrices => rfl
  | echo => exact named_moved (fun x rest => rfl) ts
  | rotate => exact argument_moved hr rotate (fun e => rfl) ts
  | move => exact argument_moved hr move (fun e => rfl) ts
  | buy => exact named_moved (fun x rest => by rw [hr]; exact wrap_moved (buy x) (fun e => rfl) _) ts
  | sell => exact named_moved (fun x rest => by rw [hr]; exact wrap_moved (sell x) (fun e => rfl) _) ts
  | assign =>
    refine named_moved (fun x rest => ?_) ts
    rcases rest with _ | ⟨⟨kind, col⟩, rest⟩
    · exact failHere_moved _ []
    · have hfail := failHere_moved (s := s) (f := f) .equalsExpected (⟨kind, col⟩ :: rest)
      cases kind with
      | symbol y =>
        cases y with
        | equals => exact (congrArg _ (hr s rest)).trans (wrap_moved (assign x) (fun e => rfl) _)
        | _ => exact hfail
      | _ => exact hfail

theorem primary_moved (hs : Shrinks r) (hr : Moves f r) : Moves f (primary r) := by
  intro s ts
  rcases ts with _ | ⟨⟨kind, col⟩, rest⟩
  · exact failHere_moved _ []
  · cases kind with
    | keyword k => exact keyworded_moved hr k s rest
    | name x | integer n => rfl
    | outOfRange | stray c => exact fail_moved _ col rest
    | symbol y =>
      cases y with
      | equals | andAnd => exact fail_moved _ col rest
      | openParen => exact group_moved hs hr s rest
      | closeParen =>
        cases hg : s.grouped with
        | true =>
          have hfail := fail_moved (s := s) (f := f) .operandExpected col (⟨.symbol .closeParen, col⟩ :: rest)
          simpa [primary, Token.mapCol, hg] using hfail
        | false =>
          have hfail := fail_moved (s := s) (f := f) .operandExpected col rest
          simpa [primary, Token.mapCol, hg] using hfail

theorem operand_moves (f : Nat → Nat) (levels : Nat) : Moves f (operand levels) := by
  induction levels with
  | zero => exact fun s ts => failHere_moved _ ts
  | succ levels ih => exact primary_moved (operand_suffix levels) ih

/-- Lines of the same kinds of tokens are read as the same tree, apart from columns. -/
theorem chain_mapCols {ts' : List Token} (h : ts.map (·.kind) = ts'.map (·.kind)) (levels endCol endCol' : Nat)
    (g : Bool) :
    (chain (operand levels) ⟨endCol, g⟩ ts).1.mapCols (fun _ => 0) =
      (chain (operand levels) ⟨endCol', g⟩ ts').1.mapCols (fun _ => 0) := by
  have hts : ts.map (Token.mapCol fun _ => 0) = ts'.map (Token.mapCol fun _ => 0) := by
    have := congrArg (List.map fun k => (⟨k, 0⟩ : Token)) h
    rw [List.map_map, List.map_map] at this
    exact this
  have hread : ∀ (endCol : Nat) (ts : List Token),
      (chain (operand levels) ⟨endCol, g⟩ ts).1.mapCols (fun _ => 0) =
        (chain (operand levels) ⟨0, g⟩ (ts.map (Token.mapCol fun _ => 0))).1 := by
    intro endCol ts
    have hm := chain_moved (operand_suffix levels) (operand_moves (fun _ => 0) levels) ⟨endCol, g⟩ ts
    exact (congrArg Prod.fst hm).symm
  rw [hread, hread, hts]

/-- They are read as the same statements, apart from columns. -/
theorem chain_kinds {ts' : List Token} (h : ts.map (·.kind) = ts'.map (·.kind)) (levels endCol endCol' : Nat)
    (g : Bool) :
    unplaced (chain (operand levels) ⟨endCol, g⟩ ts).1.statements =
      unplaced (chain (operand levels) ⟨endCol', g⟩ ts').1.statements := by
  rw [unplaced, unplaced, ← statements_mapCols, ← statements_mapCols, chain_mapCols h levels endCol endCol' g]

theorem ofLine?_mapCols {l l' : Line} (h : l.tokens.map (·.kind) = l'.tokens.map (·.kind)) :
    (ofLine? l).map (mapCols fun _ => 0) = (ofLine? l').map (mapCols fun _ => 0) := by
  obtain ⟨ts, endCol⟩ := l
  obtain ⟨ts', endCol'⟩ := l'
  have hchain := chain_mapCols h maxNesting endCol endCol' false
  cases ts with
  | nil =>
    obtain rfl : ts' = [] := List.map_eq_nil_iff.1 h.symm
    rfl
  | cons t ts =>
    cases ts' with
    | nil => cases h
    | cons t' ts' => exact congrArg some hchain

end Expr

end RobotShell
