import RobotShell.Proofs.Nesting
/-!
# Which tokens are blamed

An error node blames a token, or the end of the line, by its column. A rule blames some of the tokens it
reads, in their order, and after them at most what comes next, `Blames`. What comes next may be blamed and
still not be read, so a statement behind it must not start with it: a chain goes on behind the `&&` it has
stopped at, and a group behind its close. So no token of a line is blamed twice.
-/

namespace RobotShell.Expr

open scoped List

variable {r : Rule} {s : Scope} {ts rest : List Token} {q : Expr × List Token}

/-- The columns of the error nodes, from left to right. -/
def blamed (e : Expr) : List Nat := e.errors.map Prod.snd

/-- Of the tokens that were read some are blamed, in their order, and after them at most what comes next. -/
def Blames (s : Scope) (ts : List Token) (q : Expr × List Token) : Prop :=
  ∃ read, ts = read ++ q.2 ∧ q.1.blamed <+ read.map (·.col) ++ [s.col q.2]

/-! ## Complaints -/

theorem blames_of_blamed_eq_nil (hsuf : q.2 <:+ ts) (h : q.1.blamed = []) : Blames s ts q := by
  obtain ⟨read, hread⟩ := hsuf
  exact ⟨read, hread.symm, h ▸ List.nil_sublist _⟩

/-- Tokens in front of those that were read are not blamed. -/
theorem Blames.behind (front : List Token) (h : Blames s ts q) : Blames s (front ++ ts) q := by
  obtain ⟨read, rfl, hsub⟩ := h
  refine ⟨front ++ read, (List.append_assoc ..).symm, ?_⟩
  rw [List.map_append, List.append_assoc]
  exact hsub.trans (List.sublist_append_right ..)

theorem fail_blames (c : Complaint) (t : Token) (rest : List Token) : Blames s (t :: rest) (s.fail c t.col rest) := by
  obtain ⟨read, hread⟩ := resume_suffix (s := s) 0 rest
  exact ⟨t :: read, congrArg (t :: ·) hread.symm, List.singleton_sublist.2 List.mem_cons_self⟩

theorem failHere_blames (c : Complaint) (ts : List Token) : Blames s ts (s.failHere c ts) := by
  obtain ⟨read, hread⟩ := resume_suffix (s := s) 0 ts
  refine ⟨read, hread.symm, List.singleton_sublist.2 ?_⟩
  cases read with
  | nil =>
    have hstay : s.resume 0 ts = ts := hread
    simp [Scope.failHere, Scope.fail, hstay]
  | cons t read =>
    rw [← hread]
    exact List.mem_cons_self

/-! ## Rules -/

theorem wrap_blames (build : Expr → Expr) (hb : ∀ e, (build e).errors = e.errors) (h : Blames s ts q) :
    Blames s ts (wrap build q) := by
  cases hE : q.1.isError with
  | true => rwa [wrap_error hE]
  | false =>
    rw [wrap_of_not_error hE]
    obtain ⟨read, hts, hsub⟩ := h
    exact ⟨read, hts, by rwa [blamed, hb]⟩

theorem named_blames {andThen : Name → List Token → Expr × List Token}
    (h : ∀ x rest, Blames s rest (andThen x rest)) (ts : List Token) : Blames s ts (named s ts andThen) := by
  unfold named
  split
  · next x col rest => exact (h x rest).behind [⟨.name x, col⟩]
  · exact failHere_blames _ _

theorem argument_blames (hr : ∀ s ts, Blames s ts (r s ts)) (build : Expr → Expr)
    (hb : ∀ e, (build e).errors = e.errors) (ts : List Token) : Blames s ts (argument r build s ts) := by
  unfold argument
  split
  · exact failHere_blames _ _
  · split
    · exact wrap_blames build hb (hr s _)
    · exact failHere_blames _ _

/-- What a statement read and left is dropped for a complaint about what comes next. -/
theorem statement_blames (hs : Shrinks r) (hr : ∀ s ts, Blames s ts (r s ts)) (s : Scope) (ts : List Token) :
    Blames s ts (statement r s ts) := by
  rcases atEnd_or s (r s ts).2 with hend | ⟨t, rest, hrest, ht⟩
  · rw [statement_of_atEnd hend]
    exact hr s ts
  · obtain ⟨read, hread⟩ := hs s ts
    rw [statement_of_not_end hrest ht, ← hread, hrest]
    exact (failHere_blames (complaintAbout t.kind) (t :: rest)).behind read

/-- The token that ends a statement of a chain is read as the link to the next one. -/
theorem chain_blames (hs : Shrinks r) (hr : ∀ s ts, Blames s ts (r s ts)) (s : Scope) (ts : List Token) :
    Blames s ts (chain r s ts) := by
  refine chain_induction hs s (P := Blames s) (fun ts _ => statement_blames hs hr s ts) ?_ ts
  intro ts t rest hrest _ ⟨later, hlater, hsub'⟩
  obtain ⟨read, hread, hsub⟩ := statement_blames hs hr s ts
  rw [hrest] at hread hsub
  refine ⟨read ++ t :: later, ?_, ?_⟩
  · rw [hread, List.append_assoc, List.cons_append, ← hlater]
  · have hboth := hsub.append hsub'
    simpa [blamed, errors, Scope.col] using hboth

@[simp]
theorem col_inside (s : Scope) (ts : List Token) : s.inside.col ts = s.col ts := by
  cases ts <;> rfl

theorem group_blames (hs : Shrinks r) (hr : ∀ s ts, Blames s ts (r s ts)) (s : Scope) (ts : List Token) :
    Blames s ts (group r s ts) := by
  obtain ⟨read, hread, hsub⟩ := chain_blames hs hr s.inside ts
  rw [col_inside] at hsub
  rcases chain_rest hs s.inside ts with h | ⟨-, col, rest, h⟩
  · rw [h] at hread hsub
    rw [group_unclosed h]
    refine ⟨read, hread, ?_⟩
    cases (chain r s.inside ts).1.isError with
    | true => exact hsub
    | false => exact List.sublist_append_right ..
  · rw [h] at hread hsub
    rw [group_closed h]
    refine ⟨read ++ [⟨.symbol .closeParen, col⟩], by simpa using hread, ?_⟩
    rw [List.map_append]
    exact hsub.trans (List.sublist_append_left ..)

theorem keyworded_blames (hr : ∀ s ts, Blames s ts (r s ts)) (k : Keyword) (s : Scope) (ts : List Token) :
    Blames s ts (keyworded r k s ts) := by
  cases k with
  | quit | stop | help | landmark | inventory | marketPrices | cityPrices =>
    exact blames_of_blamed_eq_nil List.suffix_rfl rfl
  | echo => exact named_blames (fun x rest => blames_of_blamed_eq_nil List.suffix_rfl rfl) ts
  | rotate => exact argument_blames hr rotate (fun e => rfl) ts
  | move => exact argument_blames hr move (fun e => rfl) ts
  | buy => exact named_blames (fun x rest => wrap_blames (buy x) (fun e => rfl) (hr s rest)) ts
  | sell => exact named_blames (fun x rest => wrap_blames (sell x) (fun e => rfl) (hr s rest)) ts
  | assign =>
    refine named_blames (fun x rest => ?_) ts
    split
    · next col rest =>
      exact (wrap_blames (assign x) (fun e => rfl) (hr s rest)).behind [⟨.symbol .equals, col⟩]
    · exact failHere_blames _ _

theorem primary_blames (hs : Shrinks r) (hr : ∀ s ts, Blames s ts (r s ts)) (s : Scope) (ts : List Token) :
    Blames s ts (primary r s ts) := by
  rcases ts with _ | ⟨⟨kind, col⟩, rest⟩
  · exact failHere_blames _ _
  · cases kind with
    | keyword k => exact (keyworded_blames hr k s rest).behind [⟨.keyword k, col⟩]
    | name x | integer n => exact blames_of_blamed_eq_nil (List.suffix_cons ..) rfl
    | outOfRange | stray c => exact fail_blames _ _ rest
    | symbol y =>
      cases y with
      | equals | andAnd => exact fail_blames _ _ rest
      | openParen => exact (group_blames hs hr s rest).behind [⟨.symbol .openParen, col⟩]
      | closeParen =>
        unfold primary
        dsimp only
        split
        · exact failHere_blames .operandExpected (⟨.symbol .closeParen, col⟩ :: rest)
        · exact fail_blames .operandExpected ⟨.symbol .closeParen, col⟩ rest

theorem operand_blames (levels : Nat) (s : Scope) (ts : List Token) : Blames s ts (operand levels s ts) := by
  induction levels generalizing s ts with
  | zero => exact failHere_blames _ ts
  | succ levels ih => exact primary_blames (operand_suffix levels) ih s ts

/-! ## Lines -/

/-- The errors of a line blame tokens of the line or its end, from left to right and none of them twice, and so
they stand at a character of the line or right behind its last one. -/
theorem ofString?_blamed {line : String} {e : Expr} (h : ofString? line = some e) :
    e.blamed.Pairwise (· < ·) ∧
      (∀ col ∈ e.blamed, col ∈ (Line.ofString line).tokens.map (·.col) ∨ col = (Line.ofString line).endCol) ∧
      ∀ col ∈ e.blamed, 1 ≤ col ∧ col ≤ (firstLine line.toList).length + 1 := by
  obtain ⟨hsorted, hlow⟩ := Source.line_sorted (.ofString line)
  have htop := chain_top (operand_suffix maxNesting) (Line.ofString line).endCol (Line.ofString line).tokens
  obtain ⟨read, hread, hsub⟩ := chain_blames (operand_suffix maxNesting) (operand_blames maxNesting)
    ⟨(Line.ofString line).endCol, false⟩ (Line.ofString line).tokens
  rw [htop] at hread hsub
  rw [List.append_nil] at hread
  rw [← hread, ← ofLine?_eq_some h] at hsub
  have hsub : e.blamed <+ (Line.ofString line).tokens.map (·.col) ++ [(Line.ofString line).endCol] := hsub
  have hend : (Line.ofString line).endCol = 1 + (firstLine line.toList).length := Source.line_endCol (.ofString line)
  have hplace : ∀ col ∈ e.blamed, col ∈ (Line.ofString line).tokens.map (·.col) ∨ col = (Line.ofString line).endCol :=
    fun col hcol => by simpa using hsub.subset hcol
  refine ⟨hsorted.sublist hsub, hplace, fun col hcol => ⟨hlow col (hsub.subset hcol), ?_⟩⟩
  rcases hplace col hcol with hmem | rfl
  · obtain ⟨t, ht, rfl⟩ := List.mem_map.1 hmem
    have hlt : t.col < (Line.ofString line).endCol := (Source.line_cols (.ofString line)).2 t ht
    omega
  · omega

/-- Errors at a stray character, at an `&&` in place of an argument, at a literal out of range and at the end of the
line. -/
theorem ofString?_blamed_operands :
    ∃ e, ofString? "let x = (a && @) && rotate && move (b && 99999999999999999999) && sell" = some e ∧
      e.blamed = [15, 28, 42, 71] ∧ [15, 28, 42, 71].Pairwise (· < ·) ∧
      ∀ col ∈ [15, 28, 42, 71],
        col ∈ [1, 5, 7, 9, 10, 12, 15, 16, 18, 21, 28, 31, 36, 37, 39, 42, 62, 64, 67] ∨ col = 71 := by
  have hread : ofString? "let x = (a && @) && rotate && move (b && 99999999999999999999) && sell" =
      some (seq (assign ⟨"x"⟩ (seq (name ⟨"a"⟩) (error "expected keyword or identifier" 15)))
        (seq (error "expected variable name or literal" 28)
          (seq (move (seq (name ⟨"b"⟩) (error "integer literal out of range" 42)))
            (error "expected identifier" 71)))) := by decide +kernel
  have htokens : (Line.ofString "let x = (a && @) && rotate && move (b && 99999999999999999999) && sell").tokens.map
      (·.col) = [1, 5, 7, 9, 10, 12, 15, 16, 18, 21, 28, 31, 36, 37, 39, 42, 62, 64, 67] := by decide +kernel
  have hend : (Line.ofString "let x = (a && @) && rotate && move (b && 99999999999999999999) && sell").endCol = 71 := by
    decide +kernel
  obtain ⟨hsorted, hplace, -⟩ := ofString?_blamed hread
  rw [htokens, hend] at hplace
  exact ⟨_, hread, rfl, hsorted, hplace⟩

end RobotShell.Expr
