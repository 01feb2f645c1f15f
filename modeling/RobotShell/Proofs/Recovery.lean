import RobotShell.Proofs.Columns
/-!
# Recovery stays within a statement

What happens to a line when ` && ` and a second line are put behind it. As long as its parentheses
are well nested, every rule reads it as before and leaves the second line alone, with one exception:
an operand that is missing right before the `&&` takes the `&&` for itself. Then recovery goes on
into the second line, up to its first `&&` outside parentheses.
-/

namespace RobotShell.Expr

/-- Whether the tokens, behind `d` open parentheses, close all that is open and nothing else. -/
def nested : Nat → List Token → Bool
  | d, [] => d == 0
  | d, ⟨.symbol .openParen, _⟩ :: ts => nested (d + 1) ts
  | 0, ⟨.symbol .closeParen, _⟩ :: _ => false
  | d + 1, ⟨.symbol .closeParen, _⟩ :: ts => nested d ts
  | d, _ :: ts => nested d ts

/-- The scope behind `d` open parentheses. -/
def Scope.depth (endCol d : Nat) : Scope := ⟨endCol, decide (0 < d)⟩

theorem Scope.inside_depth (endCol d : Nat) : (Scope.depth endCol d).inside = .depth endCol (d + 1) := by
  simp [Scope.inside, Scope.depth]

/-- The statement that lacks an operand at column `c`. -/
def wanting (c : Nat) : Statement := .malformed Complaint.operandExpected.text c

section

/-! In what follows one line ends at column `c`; of the other line there are its end `endCol` and
its tokens `us`. Put together, an `&&` stands between them at column `c`. -/

variable {r : Rule} {c endCol d : Nat} {us ts rest : List Token}

/-- The `&&` and the second line. -/
def linked (c : Nat) (us : List Token) : List Token := ⟨.symbol .andAnd, c⟩ :: us

/-- `q` is `p` with the second line left behind it, and no statement of `p` lacks an operand at
the end of the first line. -/
def Kept (c : Nat) (us : List Token) (p q : Expr × List Token) : Prop :=
  q = (p.1, p.2 ++ linked c us) ∧ wanting c ∉ p.1.statements

/-- `p` lacks an operand at the end of the first line, and `q` has taken the `&&` for it and
recovered in the second line. -/
def Swallowed (c endCol : Nat) (us : List Token) (p q : Expr × List Token) : Prop :=
  p = (error Complaint.operandExpected.text c, []) ∧
    q = (error Complaint.operandExpected.text c, (Scope.depth endCol 0).resume 0 us)

/-- The outcome of a rule on the first line alone, `p`, and before the second, `q`. -/
def Outcome (c endCol : Nat) (us : List Token) (d : Nat) (p q : Expr × List Token) : Prop :=
  nested d p.2 = true ∧ (Kept c us p q ∨ d = 0 ∧ Swallowed c endCol us p q)

/-- The rule reads the first line alone as it reads it before the second. -/
def Local (c endCol : Nat) (us : List Token) (r : Rule) : Prop :=
  ∀ d ts, nested d ts = true → (∀ t ∈ ts, t.col ≠ c) →
    Outcome c endCol us d (r (.depth c d) ts) (r (.depth endCol d) (ts ++ linked c us))

/-! ## Recovery -/

/-- Recovery on the tokens alone and before others at which it ends: it does not look behind its end. -/
theorem resume_append {s : Scope} {vs : List Token} (hgroup : 0 < d → s.grouped = true) (hend : AtEnd s vs)
    (opened : Nat) (h : nested (d + opened) ts = true) :
    nested d ((Scope.depth c d).resume opened ts) = true ∧
      s.resume opened (ts ++ vs) = (Scope.depth c d).resume opened ts ++ vs := by
  induction ts generalizing opened with
  | nil =>
    obtain ⟨rfl, rfl⟩ : d = 0 ∧ opened = 0 := by simpa [nested] using h
    exact ⟨rfl, resume_of_atEnd hend⟩
  | cons t rest ih =>
    obtain ⟨kind, col⟩ := t
    cases kind with
    | symbol y =>
      cases y with
      | equals => cases opened <;> exact ih _ (by simpa [nested] using h)
      | openParen => exact ih (opened + 1) (by simpa [nested, Nat.add_assoc] using h)
      | andAnd =>
        cases opened with
        | zero => exact ⟨by simpa [nested, Scope.resume] using h, rfl⟩
        | succ opened => exact ih (opened + 1) (by simpa [nested] using h)
      | closeParen =>
        cases opened with
        | succ opened => exact ih opened (by simpa [nested] using h)
        | zero =>
          cases d with
          | zero => simp [nested] at h
          | succ d => simpa [nested, Scope.resume, Scope.depth, hgroup] using h
    | _ => exact ih opened (by simpa [nested] using h)

theorem resume_local (c endCol : Nat) (us : List Token) (opened : Nat) (h : nested (d + opened) ts = true) :
    nested d ((Scope.depth c d).resume opened ts) = true ∧
      (Scope.depth endCol d).resume opened (ts ++ linked c us) =
        (Scope.depth c d).resume opened ts ++ linked c us :=
  resume_append (by simp [Scope.depth]) (by simp [AtEnd, linked, Scope.endsStatement]) opened h

theorem fail_local (k : Complaint) (col : Nat) (hk : k.text ≠ Complaint.operandExpected.text ∨ col ≠ c)
    (h : nested d ts = true) :
    Outcome c endCol us d ((Scope.depth c d).fail k col ts)
      ((Scope.depth endCol d).fail k col (ts ++ linked c us)) := by
  obtain ⟨hn, hr⟩ := resume_local c endCol us 0 h
  refine ⟨hn, .inl ⟨?_, ?_⟩⟩
  · rw [Scope.fail, hr]
    rfl
  · rcases hk with hk | hk <;> simp [Scope.fail, statements, flatten, wanting, Ne.symm hk]

theorem failHere_local (c endCol : Nat) (us : List Token) (k : Complaint)
    (hk : k.text ≠ Complaint.operandExpected.text) (h : nested d ts = true) :
    Outcome c endCol us d ((Scope.depth c d).failHere k ts)
      ((Scope.depth endCol d).failHere k (ts ++ linked c us)) := by
  have hcol : (Scope.depth endCol d).col (ts ++ linked c us) = (Scope.depth c d).col ts := by cases ts <;> rfl
  rw [Scope.failHere, Scope.failHere, hcol]
  exact fail_local k _ (.inl hk) h

/-! ## Rules -/

theorem wrap_local {build : Expr → Expr} (hb : ∀ e, wanting c ∉ (build e).statements)
    {p q : Expr × List Token} (h : Outcome c endCol us d p q) :
    Outcome c endCol us d (wrap build p) (wrap build q) := by
  obtain ⟨hn, ⟨rfl, hw⟩ | ⟨hd, rfl, rfl⟩⟩ := h
  · obtain ⟨e, rest⟩ := p
    cases hE : e.isError with
    | true =>
      rw [wrap_error hE, wrap_error hE]
      exact ⟨hn, .inl ⟨rfl, hw⟩⟩
    | false =>
      rw [wrap_of_not_error hE, wrap_of_not_error hE]
      exact ⟨hn, .inl ⟨rfl, hb e⟩⟩
  · exact ⟨hn, .inr ⟨hd, rfl, rfl⟩⟩

theorem named_local {f g : Name → List Token → Expr × List Token} (h : nested d ts = true)
    (hf : ∀ x col rest, ts = ⟨.name x, col⟩ :: rest →
      Outcome c endCol us d (f x rest) (g x (rest ++ linked c us))) :
    Outcome c endCol us d (named (.depth c d) ts f) (named (.depth endCol d) (ts ++ linked c us) g) := by
  have hfail := failHere_local c endCol us .nameExpected (by decide) h
  rcases ts with _ | ⟨⟨kind, col⟩, rest⟩
  · exact hfail
  · cases kind with
    | name x => exact hf x col rest rfl
    | _ => exact hfail

theorem argument_local (hr : Local c endCol us r) {build : Expr → Expr}
    (hb : ∀ e, wanting c ∉ (build e).statements) (h : nested d ts = true) (hc : ∀ t ∈ ts, t.col ≠ c) :
    Outcome c endCol us d (argument r build (.depth c d) ts)
      (argument r build (.depth endCol d) (ts ++ linked c us)) := by
  have hfail := failHere_local c endCol us .argumentExpected (by decide) h
  have hop := wrap_local hb (hr d ts h hc)
  rcases ts with _ | ⟨t, rest⟩
  · exact hfail
  · simp only [argument, List.cons_append] at hop ⊢
    split
    · exact hop
    · exact hfail

theorem atEnd_linked : AtEnd (.depth endCol d) (ts ++ linked c us) ↔ AtEnd (.depth c d) ts := by
  cases ts <;> simp [AtEnd, linked, Scope.endsStatement, Scope.depth]

theorem statement_local (hs : Shrinks r) (hr : Local c endCol us r) : Local c endCol us (statement r) := by
  intro d ts h hc
  obtain ⟨hn, ⟨hq, hw⟩ | ⟨rfl, hp, hq⟩⟩ := hr d ts h hc
  · rcases atEnd_or (.depth c d) (r (.depth c d) ts).2 with hend | ⟨t, rest, hrest, ht⟩
    · rw [statement_of_atEnd hend, statement_of_atEnd (by rw [hq]; exact atEnd_linked.2 hend)]
      exact ⟨hn, .inl ⟨hq, hw⟩⟩
    -- `t` stands in the first line, so its complaint is not the one about a missing operand at the end
    · have hmem : t ∈ ts := (hs _ ts).subset (hrest ▸ List.mem_cons_self)
      have hrest' : (r (.depth endCol d) (ts ++ linked c us)).2 = t :: (rest ++ linked c us) := by
        rw [hq, hrest]; rfl
      rw [statement_of_not_end hrest ht, statement_of_not_end hrest' ht]
      exact fail_local (complaintAbout t.kind) t.col (.inr (hc t hmem)) (hrest ▸ hn)
  · rw [statement_of_atEnd (by simp [hp, AtEnd]), statement_of_atEnd (by rw [hq]; exact resume_atEnd 0 us)]
    exact ⟨hn, .inr ⟨rfl, hp, hq⟩⟩

theorem nested_behind_link {t : Token} (h : nested d (t :: rest) = true) (ht : t.kind = .symbol .andAnd) :
    nested d rest = true := by
  obtain ⟨kind, col⟩ := t
  obtain rfl : kind = .symbol .andAnd := ht
  simpa [nested] using h

/-- Inside a group nothing is swallowed: the group's close comes before the `&&`. -/
theorem chain_local (hs : Shrinks r) (hr : Local c endCol us r) (h : nested (d + 1) ts = true)
    (hc : ∀ t ∈ ts, t.col ≠ c) :
    nested (d + 1) (chain r (.depth c (d + 1)) ts).2 = true ∧
      Kept c us (chain r (.depth c (d + 1)) ts) (chain r (.depth endCol (d + 1)) (ts ++ linked c us)) := by
  revert h hc
  refine chain_induction hs (.depth c (d + 1)) (P := fun ts p => nested (d + 1) ts = true →
    (∀ t ∈ ts, t.col ≠ c) → nested (d + 1) p.2 = true ∧
      Kept c us p (chain r (.depth endCol (d + 1)) (ts ++ linked c us))) ?_ ?_ ts
  · intro ts hlink h hc
    obtain ⟨hn, ⟨hq, hw⟩ | ⟨h0, -⟩⟩ := statement_local hs hr (d + 1) ts h hc
    · have hlink' : NoLink ((statement r (.depth c (d + 1)) ts).2 ++ linked c us) := by
        rcases hrest : (statement r (.depth c (d + 1)) ts).2 with _ | ⟨t, rest⟩
        · simp [hrest, nested] at hn
        · simpa [hrest, NoLink] using hlink
      rw [chain_last (by rwa [hq])]
      exact ⟨hn, hq, hw⟩
    · cases h0
  · intro ts t rest hrest ht ih h hc
    obtain ⟨hn, ⟨hq, hw⟩ | ⟨h0, -⟩⟩ := statement_local hs hr (d + 1) ts h hc
    · have hsuf : t :: rest <:+ ts := hrest ▸ statement_suffix hs _ ts
      have hn' := nested_behind_link (hrest ▸ hn) ht
      obtain ⟨hnc, hqc, hwc⟩ := ih hn' fun u hu => hc u (hsuf.subset (List.mem_cons_of_mem t hu))
      have hrest' : (statement r (.depth endCol (d + 1)) (ts ++ linked c us)).2 = t :: (rest ++ linked c us) := by
        rw [hq, hrest]; rfl
      rw [chain_link hs hrest' ht, hqc, hq]
      refine ⟨hnc, rfl, ?_⟩
      rw [statements_seq]
      exact List.not_mem_append hw hwc
    · cases h0

theorem group_local (hs : Shrinks r) (hr : Local c endCol us r) (h : nested (d + 1) ts = true)
    (hc : ∀ t ∈ ts, t.col ≠ c) :
    Outcome c endCol us d (group r (.depth c d) ts) (group r (.depth endCol d) (ts ++ linked c us)) := by
  obtain ⟨hn, hq, hw⟩ := chain_local hs hr h hc
  rcases chain_rest hs (.depth c (d + 1)) ts with hrest | ⟨-, col, rest, hrest⟩
  · simp [hrest, nested] at hn
  · have hrest' : (chain r (.depth endCol (d + 1)) (ts ++ linked c us)).2 =
        ⟨.symbol .closeParen, col⟩ :: (rest ++ linked c us) := by
      rw [hq, hrest]; rfl
    rw [group_closed (by rwa [Scope.inside_depth]), group_closed (by rwa [Scope.inside_depth]), Scope.inside_depth,
      Scope.inside_depth, hq]
    exact ⟨by simpa [hrest, nested] using hn, .inl ⟨rfl, hw⟩⟩

theorem keyworded_local (hr : Local c endCol us r) (k : Keyword) (h : nested d ts = true)
    (hc : ∀ t ∈ ts, t.col ≠ c) :
    Outcome c endCol us d (keyworded r k (.depth c d) ts) (keyworded r k (.depth endCol d) (ts ++ linked c us)) := by
  have hbehind : ∀ {x col rest}, ts = ⟨.name x, col⟩ :: rest → nested d rest = true ∧ ∀ t ∈ rest, t.col ≠ c := by
    rintro x col rest rfl
    exact ⟨h, fun t ht => hc t (List.mem_cons_of_mem _ ht)⟩
  cases k with
  | quit | stop | help | landmark | inventory | marketPrices | cityPrices =>
    exact ⟨h, .inl ⟨rfl, by simp [keyworded, statements, flatten, wanting]⟩⟩
  | echo =>
    refine named_local h fun x col rest hts => ⟨(hbehind hts).1, .inl ⟨rfl, ?_⟩⟩
    simp [statements, flatten, wanting]
  | rotate => exact argument_local hr (fun e => by simp [statements, flatten, wanting]) h hc
  | move => exact argument_local hr (fun e => by simp [statements, flatten, wanting]) h hc
  | buy | sell =>
    refine named_local h fun x col rest hts => wrap_local (fun e => ?_) (hr d rest (hbehind hts).1 (hbehind hts).2)
    simp [statements, flatten, wanting]
  | assign =>
    refine named_local h fun x col rest hts => ?_
    obtain ⟨hn, hc⟩ := hbehind hts
    have hfail := failHere_local c endCol us .equalsExpected (by decide) hn
    rcases rest with _ | ⟨⟨kind, colEq⟩, rest⟩
    · exact hfail
    · cases kind with
      | symbol y =>
        cases y with
        | equals =>
          refine wrap_local (fun e => ?_) (hr d rest hn fun t ht => hc t (List.mem_cons_of_mem _ ht))
          simp [statements, flatten, wanting]
        | _ => exact hfail
      | _ => exact hfail

theorem primary_local (hs : Shrinks r) (hr : Local c endCol us r) : Local c endCol us (primary r) := by
  intro d ts h hc
  rcases ts with _ | ⟨⟨kind, col⟩, rest⟩
  · obtain rfl : d = 0 := by simpa [nested] using h
    exact ⟨rfl, .inr ⟨rfl, rfl, rfl⟩⟩
  · have hcol : col ≠ c := hc _ List.mem_cons_self
    have hc' : ∀ t ∈ rest, t.col ≠ c := fun t ht => hc t (List.mem_cons_of_mem _ ht)
    cases kind with
    | keyword k => exact keyworded_local hr k h hc'
    | name x | integer n => exact ⟨h, .inl ⟨rfl, by simp [primary, statements, flatten, wanting]⟩⟩
    | outOfRange | stray ch => exact fail_local _ col (.inr hcol) h
    | symbol y =>
      cases y with
      | equals | andAnd => exact fail_local _ col (.inr hcol) (by simpa [nested] using h)
      | openParen => exact group_local hs hr (by simpa [nested] using h) hc'
      | closeParen =>
        cases d with
        | zero => simp [nested] at h
        | succ d => exact fail_local .operandExpected col (.inr hcol) h

theorem operand_local (n : Nat) : Local c endCol us (operand n) := by
  induction n with
  | zero =>
    intro d ts h _
    exact failHere_local c endCol us .nestedTooDeeply (by decide) h
  | succ n ih => exact primary_local (operand_suffix n) ih

end

/-! ## Two lines -/

theorem statements_ne_nil (e : Expr) : e.statements ≠ [] := by
  induction e with
  | seq left right ihl ihr => simp [statements_seq, ihl]
  | _ => simp [statements, flatten]

/-- At the top level only an `&&` may follow a statement. -/
theorem eq_andAnd {endCol : Nat} {k : Token.Kind} (h : (Scope.depth endCol 0).endsStatement k = true) :
    k = .symbol .andAnd := by
  cases k with
  | symbol y => cases y <;> simp_all [Scope.endsStatement, Scope.depth]
  | _ => simp [Scope.endsStatement] at h

/-- The statements behind the first `&&` outside parentheses. -/
def behindLink (r : Rule) (endCol : Nat) (us : List Token) : List Statement :=
  match (Scope.depth endCol 0).resume 0 us with
  | [] => []
  | _ :: rest => (chain r (.depth endCol 0) rest).1.statements

/-- The first line keeps its statements. It is followed by those of the second, unless it ends where
an operand is missing. -/
theorem chain_join {r : Rule} (c endCol : Nat) (us ts : List Token) (hs : Shrinks r) (hr : Local c endCol us r)
    (h : nested 0 ts = true) (hc : ∀ t ∈ ts, t.col ≠ c) :
    (chain r (.depth endCol 0) (ts ++ linked c us)).1.statements =
      (chain r (.depth c 0) ts).1.statements ++
        if (chain r (.depth c 0) ts).1.statements.getLast? = some (wanting c) then behindLink r endCol us
        else (chain r (.depth endCol 0) us).1.statements := by
  revert h hc
  refine chain_induction hs (.depth c 0) (P := fun ts p => nested 0 ts = true → (∀ t ∈ ts, t.col ≠ c) →
    (chain r (.depth endCol 0) (ts ++ linked c us)).1.statements = p.1.statements ++
      if p.1.statements.getLast? = some (wanting c) then behindLink r endCol us
      else (chain r (.depth endCol 0) us).1.statements) ?_ ?_ ts
  · intro ts hlink h hc
    have hnil : (statement r (.depth c 0) ts).2 = [] := by
      rw [← chain_last hlink]
      exact chain_top hs c ts
    obtain ⟨-, ⟨hq, hw⟩ | ⟨-, hp, hq⟩⟩ := statement_local hs hr 0 ts h hc
    · have hlast : (statement r (.depth c 0) ts).1.statements.getLast? ≠ some (wanting c) :=
        fun hl => hw (List.mem_of_getLast? hl)
      have hrest : (statement r (.depth endCol 0) (ts ++ linked c us)).2 = ⟨.symbol .andAnd, c⟩ :: us := by
        rw [hq, hnil]; rfl
      rw [if_neg hlast, chain_link hs hrest rfl, statements_seq, hq]
    -- the operand that is missing takes the `&&`, and recovery ends at the next one or at the line's end
    · rw [hp]
      have hst : (error Complaint.operandExpected.text c).statements = [wanting c] := by
        simp [statements, flatten, wanting]
      rw [hst, if_pos (List.getLast?_singleton ..), behindLink]
      rcases hres : (Scope.depth endCol 0).resume 0 us with _ | ⟨t, rest⟩ <;> rw [hres] at hq
      · rw [chain_last (by rw [hq]; simp [NoLink]), hq, hst, List.append_nil]
      · have ht : t.kind = .symbol .andAnd := by
          have hend := resume_atEnd (s := .depth endCol 0) 0 us
          rw [hres] at hend
          exact eq_andAnd (hend t rfl)
        rw [chain_link hs (by rw [hq]) ht, statements_seq, hq, hst]
  · intro ts t rest hrest ht ih h hc
    obtain ⟨hn, ⟨hq, hw⟩ | ⟨-, hp, -⟩⟩ := statement_local hs hr 0 ts h hc
    · have hsuf : t :: rest <:+ ts := hrest ▸ statement_suffix hs _ ts
      have hn' := nested_behind_link (hrest ▸ hn) ht
      have hrest' : (statement r (.depth endCol 0) (ts ++ linked c us)).2 = t :: (rest ++ linked c us) := by
        rw [hq, hrest]; rfl
      have hlast : ((statement r (.depth c 0) ts).1.statements ++ (chain r (.depth c 0) rest).1.statements).getLast? =
          (chain r (.depth c 0) rest).1.statements.getLast? := by
        rw [List.getLast?_append, List.getLast?_eq_some_getLast (statements_ne_nil _), Option.some_or]
      rw [chain_link hs hrest' ht, statements_seq, ih hn' fun u hu => hc u (hsuf.subset (List.mem_cons_of_mem t hu)),
        hq, statements_seq, hlast, List.append_assoc]
    · rw [hp] at hrest
      cases hrest

/-- Two lines with ` && ` between them have the tokens of both, with an `&&` in between. -/
theorem kinds_linked {a : String} (b : String) (ha : ∀ c ∈ a.toList, Source.isLineEnd c = false) (c : Nat) :
    (Line.ofString (a ++ " && " ++ b)).tokens.map (·.kind) =
      ((Line.ofString a).tokens ++ linked c (Line.ofString b).tokens).map (·.kind) := by
  let v := ' ' :: '&' :: '&' :: ' ' :: b.toList
  let n := 1 + a.toList.length
  have hline : Line.ofString (a ++ " && " ++ b) = Source.line ⟨1, a.toList ++ v⟩ := by
    simp [Line.ofString, Source.ofString, v]
  have hcut : Source.line ⟨1, a.toList ++ v⟩ =
      ⟨(Line.ofString a).tokens ++ (Source.line ⟨n, v⟩).tokens, (Source.line ⟨n, v⟩).endCol⟩ :=
    Source.line_append (by simp [v, Source.breaks_of_isBlank, Source.isBlank]) (Source.ofString a) ha
  have hand : Source.next ⟨n, v⟩ = (.token ⟨.symbol .andAnd, n + 1⟩, ⟨n + 1 + 2, ' ' :: b.toList⟩) := by
    simp [Source.next, Source.skipBlanks, Source.isBlank, Source.isLineEnd, Source.lexeme, v]
  have hblank : Source.line ⟨n + 1 + 2, ' ' :: b.toList⟩ = Source.line ⟨1 + (n + 3), b.toList⟩ := by
    rw [Nat.add_comm 1 (n + 3)]
    exact Source.line_congr (Source.skipBlanks_append_of_all (u := [' ']) (by simp [Source.isBlank]))
  have hshift : Source.line ⟨1 + (n + 3), b.toList⟩ = (Line.ofString b).shift (n + 3) :=
    Source.line_shift (n + 3) (Source.ofString b)
  rw [hline, hcut, Source.line_of_token hand, hblank, hshift]
  simp [linked, Line.shift, Token.mapCol]

/-- The last statement of a line's tree lacks an operand where the line ends. -/
def EndsWanting (l : Line) (e : Expr) : Prop := e.statements.getLast? = some (wanting l.endCol)

instance (l : Line) (e : Expr) : Decidable (EndsWanting l e) :=
  inferInstanceAs (Decidable (_ = _))

/-- The statements of a line behind its first `&&` outside parentheses. -/
def afterLink (l : Line) : List Statement := behindLink (operand maxNesting) l.endCol l.tokens

/-- Of a line `a && b`, where `a` has well-nested parentheses, the statements are those of `a` and
those of `b`, apart from columns, unless `a` ends where an operand is missing. That operand takes the
`&&`, and of `b` only what stands behind its first `&&` is left. -/
theorem statements_join {a b : String} {ea eb : Expr} (ha : Expr.ofString? a = some ea)
    (hb : Expr.ofString? b = some eb) (hline : ∀ c ∈ a.toList, Source.isLineEnd c = false)
    (hnest : nested 0 (Line.ofString a).tokens = true) :
    ∃ e, Expr.ofString? (a ++ " && " ++ b) = some e ∧
      (EndsWanting (Line.ofString a) ea →
        unplaced e.statements = unplaced (ea.statements ++ afterLink (Line.ofString b))) ∧
      (unplaced e.statements = unplaced (ea.statements ++ eb.statements) ↔
        (EndsWanting (Line.ofString a) ea →
          unplaced (afterLink (Line.ofString b)) = unplaced eb.statements)) := by
  have hcol : ∀ t ∈ (Line.ofString a).tokens, t.col ≠ (Line.ofString a).endCol := fun t ht =>
    Nat.ne_of_lt ((Source.line_cols (Source.ofString a)).2 t ht)
  -- apart from columns, the line has the tokens of `a`, an `&&` where `a` ends, and the tokens of `b`
  have hkinds := kinds_linked b hline (Line.ofString a).endCol
  obtain ⟨e, he⟩ : ∃ e, Expr.ofString? (a ++ " && " ++ b) = some e := by
    rw [← Option.ne_none_iff_exists']
    intro hnone
    rw [ofLine?_eq_none.1 hnone] at hkinds
    simp [linked] at hkinds
  have hjoin := chain_join (Line.ofString a).endCol (Line.ofString b).endCol (Line.ofString b).tokens
    (Line.ofString a).tokens (operand_suffix maxNesting) (operand_local maxNesting) hnest hcol
  have hplace : unplaced _ = unplaced (chain _ (.depth (Line.ofString b).endCol 0) _).1.statements :=
    chain_kinds hkinds maxNesting (Line.ofString (a ++ " && " ++ b)).endCol _ false
  have hea : ea = (chain (operand maxNesting) (.depth (Line.ofString a).endCol 0) (Line.ofString a).tokens).1 :=
    ofLine?_eq_some ha
  have heb : eb = (chain (operand maxNesting) (.depth (Line.ofString b).endCol 0) (Line.ofString b).tokens).1 :=
    ofLine?_eq_some hb
  rw [← ofLine?_eq_some he, hjoin, ← hea, ← heb] at hplace
  have he' : unplaced e.statements = unplaced (ea.statements ++
      if EndsWanting (Line.ofString a) ea then afterLink (Line.ofString b) else eb.statements) := hplace
  refine ⟨e, he, fun hwant => ?_, ?_⟩
  · rw [he', if_pos hwant]
  · rw [he']
    by_cases hwant : EndsWanting (Line.ofString a) ea
    · rw [if_pos hwant, unplaced_append, unplaced_append, List.append_cancel_left_eq]
      exact ⟨fun h _ => h, fun h => h hwant⟩
    · rw [if_neg hwant]
      exact ⟨fun _ h => absurd h hwant, fun _ => rfl⟩

/-- A `let` without a value takes the `&&` behind it, and with it the next statement. -/
theorem statements_join_unfinished_let :
    ∃ e, Expr.ofString? ("let x =" ++ " && " ++ "move 5 && stop") = some e ∧
      unplaced e.statements = [wanting 0, .stop] := by
  have ha : Expr.ofString? "let x =" = some (error Complaint.operandExpected.text 8) := by decide +kernel
  have hb : Expr.ofString? "move 5 && stop" = some (seq (move (int 5)) stop) := by decide +kernel
  obtain ⟨e, he, hwant, -⟩ := statements_join ha hb (by simp [Source.isLineEnd]) (by decide +kernel)
  refine ⟨e, he, (hwant ?_).trans ?_⟩
  · have hend : (Line.ofString "let x =").endCol = 8 := by decide +kernel
    simp [EndsWanting, hend, statements, flatten, wanting]
  · have hafter : afterLink (Line.ofString "move 5 && stop") = [.stop] := by decide +kernel
    simp [hafter, statements, flatten, wanting, unplaced, Statement.mapCols]

/-- Recovery is not local: an unfinished statement can take a whole one with it. -/
theorem statements_join_not_append :
    ¬∀ (a b : String) (ea eb e : Expr), Expr.ofString? a = some ea → Expr.ofString? b = some eb →
      (∀ c ∈ a.toList, Source.isLineEnd c = false) → nested 0 (Line.ofString a).tokens = true →
      Expr.ofString? (a ++ " && " ++ b) = some e →
        unplaced e.statements = unplaced (ea.statements ++ eb.statements) := by
  intro h
  have := h "let x =" "move 5" (.error Complaint.operandExpected.text 8) (.move (.int 5))
    (.error Complaint.operandExpected.text 9) (by decide +kernel) (by decide +kernel)
    (by simp [Source.isLineEnd]) (by decide +kernel) (by decide +kernel)
  simp [statements, flatten, unplaced, Statement.mapCols] at this

end RobotShell.Expr
