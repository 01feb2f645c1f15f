import Mathlib.Data.List.MinMax
import Mathlib.Order.Nat
import RobotShell.Proofs.Lexemes
import RobotShell.Proofs.Recovery
/-!
# Parentheses around a line

A line in parentheses is read as the line itself, one column further right, and that holds of
malformed lines as well. A closing parenthesis ends a statement inside a group where the line's end
does so outside: as long as the line's own parentheses are well nested, no rule tells the two
apart, and recovery does not either. The parentheses themselves take up one operand, so the line
must leave one of the `maxNesting` operands free.
-/

namespace RobotShell.Expr

/-! ## How many operands are open at once -/

/-- Where the statements behind the links of a chain start, as `links` reads them. -/
def linkStarts (operand : Rule) (s : Scope) : List Token → List Token → List (List Token)
  | _ :: budget, ⟨.symbol .andAnd, _⟩ :: rest =>
    rest :: linkStarts operand s budget (statement operand s rest).2
  | _, _ => []

/-- Where the statements of a chain start. -/
def starts (operand : Rule) (s : Scope) (ts : List Token) : List (List Token) :=
  ts :: linkStarts operand s (statement operand s ts).2 (statement operand s ts).2

/-- Where the operands of one operand are read. -/
def operandStarts (operand : Rule) (s : Scope) : List Token → List (Scope × List Token)
  | ⟨.symbol .openParen, _⟩ :: rest => (starts operand { s with grouped := true } rest).map fun ts =>
      ({ s with grouped := true }, ts)
  | ⟨.keyword .assign, _⟩ :: ⟨.name _, _⟩ :: ⟨.symbol .equals, _⟩ :: rest => [(s, rest)]
  | ⟨.keyword .rotate, _⟩ :: t :: rest | ⟨.keyword .move, _⟩ :: t :: rest =>
    if startsArgument t.kind then [(s, t :: rest)] else []
  | ⟨.keyword .buy, _⟩ :: ⟨.name _, _⟩ :: rest | ⟨.keyword .sell, _⟩ :: ⟨.name _, _⟩ :: rest => [(s, rest)]
  | _ => []

/-- How many operands are open at once while `operand levels` reads, itself included. -/
def opened : Nat → Scope → List Token → Nat
  | 0, _, _ => 0
  | levels + 1, s, ts =>
    ((operandStarts (operand levels) s ts).map fun p => opened levels p.1 p.2).foldr max 0 + 1

/-- How many operands are open at once while a line is read. -/
def openedBy (l : Line) : Nat :=
  ((starts (operand maxNesting) ⟨l.endCol, false⟩ l.tokens).map (opened maxNesting ⟨l.endCol, false⟩)).foldr max 0

/-- The group, the `let` in it and its value are open at once. -/
example : openedBy (Line.ofString "stop && (let x = 5 && stop)") = 3 := by decide +kernel

variable {r r' : Rule} {s : Scope} {ts rest : List Token} {n : Nat}

/-! Rules that agree where operands are read agree on what is made of them. -/

theorem statement_congr (h : r' s ts = r s ts) : statement r' s ts = statement r s ts := by
  unfold statement
  rw [h]

theorem links_congr (budget : List Token) (read : List Expr) (last : Expr)
    (h : ∀ us ∈ linkStarts r s budget ts, r' s us = r s us) :
    links r' s budget read last ts = links r s budget read last ts := by
  induction budget generalizing read last ts with
  | nil => rw [links_nil, links_nil]
  | cons b budget ih =>
    rcases noLink_or ts with hlink | ⟨col, rest, rfl⟩
    · rw [links_stop _ _ _ hlink, links_stop _ _ _ hlink]
    · have hst := statement_congr (h rest List.mem_cons_self)
      rw [links_link, links_link, hst]
      exact ih _ _ fun us hu => h us (List.mem_cons_of_mem _ hu)

theorem chain_congr (h : ∀ us ∈ starts r s ts, r' s us = r s us) : chain r' s ts = chain r s ts := by
  have hst := statement_congr (h ts List.mem_cons_self)
  simp only [chain]
  rw [hst]
  exact links_congr _ _ _ fun us hu => h us (List.mem_cons_of_mem _ hu)

theorem argument_congr (build : Expr → Expr)
    (h : ∀ t rest, ts = t :: rest → startsArgument t.kind = true → r' s ts = r s ts) :
    argument r' build s ts = argument r build s ts := by
  rcases ts with _ | ⟨t, rest⟩
  · rfl
  · simp only [argument]
    split
    · next ht => rw [h t rest rfl ht]
    · rfl

theorem named_congr {f g : Name → List Token → Expr × List Token}
    (h : ∀ x col rest, ts = ⟨.name x, col⟩ :: rest → f x rest = g x rest) : named s ts f = named s ts g := by
  rcases ts with _ | ⟨⟨kind, col⟩, rest⟩
  · rfl
  · cases kind with
    | name x => exact h x col rest rfl
    | _ => rfl

theorem group_congr (h : ∀ us ∈ starts r s.inside ts, r' s.inside us = r s.inside us) :
    group r' s ts = group r s ts := by
  have hc : chain r' s.inside ts = chain r s.inside ts := chain_congr h
  unfold group
  rw [show chain r' { s with grouped := true } ts = _ from hc]
  rfl

theorem keyworded_congr (k : Keyword) (col : Nat)
    (h : ∀ p ∈ operandStarts r s (⟨.keyword k, col⟩ :: ts), r' p.1 p.2 = r p.1 p.2) :
    keyworded r' k s ts = keyworded r k s ts := by
  cases k with
  | quit | stop | help | landmark | inventory | marketPrices | cityPrices | echo => rfl
  | rotate | move =>
    refine argument_congr _ fun t rest hts ht => ?_
    subst hts
    exact h (s, t :: rest) (by simp [operandStarts, ht])
  | buy | sell =>
    refine named_congr fun x col rest hts => ?_
    subst hts
    rw [h (s, rest) (by simp [operandStarts])]
  | assign =>
    refine named_congr fun x col rest hts => ?_
    subst hts
    rcases rest with _ | ⟨⟨kind, colEq⟩, rest⟩
    · rfl
    · cases kind with
      | symbol y =>
        cases y with
        | equals => exact congrArg (wrap (assign x)) (h (s, rest) (by simp [operandStarts]))
        | _ => rfl
      | _ => rfl

theorem primary_congr (h : ∀ p ∈ operandStarts r s ts, r' p.1 p.2 = r p.1 p.2) :
    primary r' s ts = primary r s ts := by
  rcases ts with _ | ⟨⟨kind, col⟩, rest⟩
  · rfl
  · cases kind with
    | keyword k => exact keyworded_congr k col h
    | symbol y =>
      cases y with
      | openParen => exact group_congr fun us hu => h (s.inside, us) (List.mem_map_of_mem hu)
      | _ => rfl
    | _ => rfl

theorem opened_le_of_mem {levels : Nat} {p : Scope × List Token} (h : opened (levels + 1) s ts ≤ n + 1)
    (hp : p ∈ operandStarts (operand levels) s ts) : opened levels p.1 p.2 ≤ n :=
  (List.le_max_of_le (List.mem_map_of_mem hp) (Nat.le_refl _)).trans (Nat.le_of_succ_le_succ h)

/-- Levels that are never reached do not matter. -/
theorem operand_of_opened_le {levels : Nat} (hn : n ≤ levels) (h : opened levels s ts ≤ n) :
    operand n s ts = operand levels s ts := by
  induction levels generalizing n s ts with
  | zero => rw [Nat.le_zero.1 hn]
  | succ levels ih =>
    cases n with
    | zero => exact absurd h (Nat.not_succ_le_zero _)
    | succ n => exact primary_congr fun p hp => ih (Nat.le_of_succ_le_succ hn) (opened_le_of_mem h hp)

theorem chain_of_openedBy_le {l : Line} (hn : n ≤ maxNesting) (h : openedBy l ≤ n) :
    chain (operand n) ⟨l.endCol, false⟩ l.tokens = chain (operand maxNesting) ⟨l.endCol, false⟩ l.tokens :=
  chain_congr fun _ hu =>
    operand_of_opened_le hn ((List.le_max_of_le (List.mem_map_of_mem hu) (Nat.le_refl _)).trans h)

section

/-! ## Behind a closing parenthesis

The same tokens stand at the end of a line, behind `d` open parentheses, and in front of a closing
parenthesis, behind one more. The line ends, and the parenthesis stands, at column `c`. -/

variable {c endCol d : Nat}

/-- The tokens with a closing parenthesis behind them. -/
def closed (c : Nat) (ts : List Token) : List Token := ts ++ [⟨.symbol .closeParen, c⟩]

/-- Of a rule's outcome `p` at the line's end and `q` in front of the parenthesis: all that is left
is well nested, and in `q` the parenthesis is left behind it. -/
def Alike (c d : Nat) (p q : Expr × List Token) : Prop :=
  nested d p.2 = true ∧ q = (p.1, closed c p.2)

/-- The rule does not tell the line's end from a closing parenthesis. -/
def Transparent (c endCol : Nat) (r : Rule) : Prop :=
  ∀ d ts, nested d ts = true → Alike c d (r (.depth c d) ts) (r (.depth endCol (d + 1)) (closed c ts))

/-! ### Recovery -/

theorem fail_alike (endCol : Nat) (k : Complaint) (col : Nat) (h : nested d ts = true) :
    Alike c d ((Scope.depth c d).fail k col ts) ((Scope.depth endCol (d + 1)).fail k col (closed c ts)) := by
  have hend : AtEnd (.depth endCol (d + 1)) [⟨.symbol .closeParen, c⟩] := by
    simp [AtEnd, Scope.endsStatement, Scope.depth]
  obtain ⟨hn, hr⟩ := resume_append (c := c) (by simp [Scope.depth]) hend 0 h
  exact ⟨hn, by rw [Scope.fail, closed, hr]; rfl⟩

theorem failHere_alike (endCol : Nat) (k : Complaint) (h : nested d ts = true) :
    Alike c d ((Scope.depth c d).failHere k ts) ((Scope.depth endCol (d + 1)).failHere k (closed c ts)) := by
  have hcol : (Scope.depth endCol (d + 1)).col (closed c ts) = (Scope.depth c d).col ts := by cases ts <;> rfl
  rw [Scope.failHere, Scope.failHere, hcol]
  exact fail_alike endCol k _ h

/-! ### Rules -/

theorem wrap_alike (build : Expr → Expr) {p q : Expr × List Token} (h : Alike c d p q) :
    Alike c d (wrap build p) (wrap build q) := by
  obtain ⟨hn, rfl⟩ := h
  obtain ⟨e, rest⟩ := p
  cases hE : e.isError with
  | true =>
    rw [wrap_error hE, wrap_error hE]
    exact ⟨hn, rfl⟩
  | false =>
    rw [wrap_of_not_error hE, wrap_of_not_error hE]
    exact ⟨hn, rfl⟩

theorem named_alike {f g : Name → List Token → Expr × List Token} (h : nested d ts = true)
    (hf : ∀ x col rest, ts = ⟨.name x, col⟩ :: rest → Alike c d (f x rest) (g x (closed c rest))) :
    Alike c d (named (.depth c d) ts f) (named (.depth endCol (d + 1)) (closed c ts) g) := by
  have hfail := failHere_alike (c := c) endCol .nameExpected h
  rcases ts with _ | ⟨⟨kind, col⟩, rest⟩
  · exact hfail
  · cases kind with
    | name x => exact hf x col rest rfl
    | _ => exact hfail

theorem argument_alike (hr : Transparent c endCol r) (build : Expr → Expr) (h : nested d ts = true) :
    Alike c d (argument r build (.depth c d) ts) (argument r build (.depth endCol (d + 1)) (closed c ts)) := by
  have hfail := failHere_alike (c := c) endCol .argumentExpected h
  have hop := wrap_alike build (hr d ts h)
  rcases ts with _ | ⟨t, rest⟩
  · exact hfail
  · simp only [argument, closed, List.cons_append] at hop hfail ⊢
    split
    · exact hop
    · exact hfail

theorem atEnd_closed (h : AtEnd (.depth c d) ts) : AtEnd (.depth endCol (d + 1)) (closed c ts) := by
  rcases ts with _ | ⟨⟨kind, col⟩, rest⟩
  · simp [AtEnd, closed, Scope.endsStatement, Scope.depth]
  · cases kind with
    | symbol y => cases y <;> simp_all [AtEnd, closed, Scope.endsStatement, Scope.depth]
    | _ => simp_all [AtEnd, Scope.endsStatement]

/-- Where the rest is well nested, a parenthesis that stands next closes a group. -/
theorem endsStatement_inside {t : Token} (h : nested d (t :: rest) = true)
    (ht : (Scope.depth c d).endsStatement t.kind = false) :
    (Scope.depth endCol (d + 1)).endsStatement t.kind = false := by
  obtain ⟨kind, col⟩ := t
  cases kind with
  | symbol y => cases y <;> cases d <;> simp_all [nested, Scope.endsStatement, Scope.depth]
  | _ => rfl

theorem statement_alike (hr : Transparent c endCol r) : Transparent c endCol (statement r) := by
  intro d ts h
  obtain ⟨hn, hq⟩ := hr d ts h
  rcases atEnd_or (.depth c d) (r (.depth c d) ts).2 with hend | ⟨t, rest, hrest, ht⟩
  · rw [statement_of_atEnd hend, statement_of_atEnd (by rw [hq]; exact atEnd_closed hend)]
    exact ⟨hn, hq⟩
  · have hrest' : (r (.depth endCol (d + 1)) (closed c ts)).2 = t :: closed c rest := by
      rw [hq, hrest]; rfl
    rw [hrest] at hn
    rw [statement_of_not_end hrest ht, statement_of_not_end hrest' (endsStatement_inside hn ht)]
    exact fail_alike endCol (complaintAbout t.kind) t.col hn

theorem noLink_closed (h : NoLink ts) : NoLink (closed c ts) := by
  rcases ts with _ | ⟨t, rest⟩
  · simp [NoLink, closed]
  · simpa [NoLink, closed] using h

theorem chain_alike (hs : Shrinks r) (hr : Transparent c endCol r) : Transparent c endCol (chain r) := by
  intro d ts
  refine chain_induction hs (.depth c d) (P := fun ts p => nested d ts = true →
    Alike c d p (chain r (.depth endCol (d + 1)) (closed c ts))) ?_ ?_ ts
  · intro ts hlink h
    obtain ⟨hn, hq⟩ := statement_alike hr d ts h
    rw [chain_last (by rw [hq]; exact noLink_closed hlink)]
    exact ⟨hn, hq⟩
  · intro ts t rest hrest ht ih h
    obtain ⟨hn, hq⟩ := statement_alike hr d ts h
    obtain ⟨hnc, hqc⟩ := ih (nested_behind_link (hrest ▸ hn) ht)
    have hrest' : (statement r (.depth endCol (d + 1)) (closed c ts)).2 = t :: closed c rest := by
      rw [hq, hrest]; rfl
    rw [chain_link hs hrest' ht, hqc, hq]
    exact ⟨hnc, rfl⟩

theorem group_alike (hs : Shrinks r) (hr : Transparent c endCol r) (h : nested (d + 1) ts = true) :
    Alike c d (group r (.depth c d) ts) (group r (.depth endCol (d + 1)) (closed c ts)) := by
  obtain ⟨hn, hq⟩ := chain_alike hs hr (d + 1) ts h
  rcases chain_rest hs (.depth c (d + 1)) ts with hrest | ⟨-, col, rest, hrest⟩
  · simp [hrest, nested] at hn
  · have hrest' : (chain r (.depth endCol (d + 2)) (closed c ts)).2 = ⟨.symbol .closeParen, col⟩ :: closed c rest := by
      rw [hq, hrest]; rfl
    rw [group_closed (by rwa [Scope.inside_depth]), group_closed (by rwa [Scope.inside_depth]), Scope.inside_depth,
      Scope.inside_depth, hq]
    exact ⟨by simpa [hrest, nested] using hn, rfl⟩

theorem keyworded_alike (hr : Transparent c endCol r) (k : Keyword) : Transparent c endCol (keyworded r k) := by
  intro d ts h
  have hbehind : ∀ {x col rest}, ts = ⟨.name x, col⟩ :: rest → nested d rest = true := by
    rintro x col rest rfl
    exact h
  cases k with
  | quit | stop | help | landmark | inventory | marketPrices | cityPrices => exact ⟨h, rfl⟩
  | echo => exact named_alike h fun x col rest hts => ⟨hbehind hts, rfl⟩
  | rotate | move => exact argument_alike hr _ h
  | buy | sell => exact named_alike h fun x col rest hts => wrap_alike _ (hr d rest (hbehind hts))
  | assign =>
    refine named_alike h fun x col rest hts => ?_
    have hn := hbehind hts
    have hfail := failHere_alike (c := c) endCol .equalsExpected hn
    rcases rest with _ | ⟨⟨kind, colEq⟩, rest⟩
    · exact hfail
    · cases kind with
      | symbol y =>
        cases y with
        | equals => exact wrap_alike (assign x) (hr d rest hn)
        | _ => exact hfail
      | _ => exact hfail

theorem primary_alike (hs : Shrinks r) (hr : Transparent c endCol r) : Transparent c endCol (primary r) := by
  intro d ts h
  rcases ts with _ | ⟨⟨kind, col⟩, rest⟩
  -- an operand is missing, where the line ends or in front of the parenthesis
  · obtain rfl : d = 0 := by simpa [nested] using h
    exact ⟨rfl, rfl⟩
  · cases kind with
    | keyword k => exact keyworded_alike hr k d rest h
    | name x | integer n => exact ⟨h, rfl⟩
    | outOfRange | stray ch => exact fail_alike endCol _ col h
    | symbol y =>
      cases y with
      | equals | andAnd => exact fail_alike endCol _ col (by simpa [nested] using h)
      | openParen => exact group_alike hs hr (by simpa [nested] using h)
      | closeParen =>
        cases d with
        | zero => simp [nested] at h
        | succ d => exact fail_alike endCol .operandExpected col h

theorem operand_alike (c endCol n : Nat) : Transparent c endCol (operand n) := by
  induction n with
  | zero => exact fun d ts h => failHere_alike endCol .nestedTooDeeply h
  | succ n ih => exact primary_alike (operand_suffix n) ih

end

/-! ## Lines in parentheses -/

/-- A line that no character ends is as long as its text. -/
theorem endCol_ofString {s : String} (hline : ∀ c ∈ s.toList, Source.isLineEnd c = false) :
    (Line.ofString s).endCol = s.toList.length + 1 := by
  have hend : (Line.ofString s).endCol = 1 + (firstLine s.toList).length := Source.line_endCol (.ofString s)
  have hall : firstLine s.toList = s.toList := List.takeWhile_eq_self_iff.2 (by simpa using hline)
  rw [hend, hall, Nat.add_comm]

/-- A line in parentheses has its tokens one column further right, between the two parentheses. -/
theorem line_parentheses {s : String} (hline : ∀ c ∈ s.toList, Source.isLineEnd c = false) :
    Line.ofString ("(" ++ s ++ ")") =
      ⟨⟨.symbol .openParen, 1⟩ :: closed ((Line.ofString s).endCol + 1) ((Line.ofString s).shift 1).tokens,
        (Line.ofString s).endCol + 2⟩ := by
  let n := 2 + s.toList.length
  have hline' : Line.ofString ("(" ++ s ++ ")") = Source.line ⟨1, '(' :: (s.toList ++ [')'])⟩ := by
    simp [Line.ofString, Source.ofString]
  have hopen : Source.next ⟨1, '(' :: (s.toList ++ [')'])⟩ =
      (.token ⟨.symbol .openParen, 1⟩, ⟨2, s.toList ++ [')']⟩) := by
    simp [Source.next, Source.skipBlanks, Source.isBlank, Source.isLineEnd, Source.lexeme]
  have hbreaks : Source.breaks ')' = true := by decide +kernel
  have hcut : Source.line ⟨2, s.toList ++ [')']⟩ =
      ⟨((Line.ofString s).shift 1).tokens ++ (Source.line ⟨n, [')']⟩).tokens, (Source.line ⟨n, [')']⟩).endCol⟩ := by
    rw [← show Source.line ⟨2, s.toList⟩ = (Line.ofString s).shift 1 from Source.line_shift 1 (Source.ofString s)]
    exact Source.line_append (by simpa using hbreaks) ⟨2, s.toList⟩ hline
  have hclose : Source.next ⟨n, [')']⟩ = (.token ⟨.symbol .closeParen, n⟩, ⟨n + 1, []⟩) := by
    simp [Source.next, Source.skipBlanks, Source.isBlank, Source.isLineEnd, Source.lexeme]
  have hend : Source.line ⟨n + 1, []⟩ = ⟨[], n + 1⟩ := Source.line_of_lineEnd (Source.next_of_rest_eq_nil rfl)
  have hn : (Line.ofString s).endCol + 1 = n := by
    rw [endCol_ofString hline]
    omega
  rw [hline', Source.line_of_token hopen, hcut, Source.line_of_token hclose, hend, ← hn]
  rfl

theorem nested_map (f : Nat → Nat) (d : Nat) (ts : List Token) : nested d (ts.map (Token.mapCol f)) = nested d ts := by
  induction ts generalizing d with
  | nil => rfl
  | cons t rest ih =>
    obtain ⟨kind, col⟩ := t
    cases kind with
    | symbol y => cases y <;> cases d <;> simp_all [nested, Token.mapCol]
    | _ => simp_all [nested, Token.mapCol]

/-- An operand that leaves nothing is the whole chain. -/
theorem chain_of_rest_eq_nil (h : (r s ts).2 = []) : chain r s ts = r s ts := by
  have hst : statement r s ts = r s ts := statement_of_atEnd (by simp [h, AtEnd])
  rw [chain_last (by simp [hst, h, NoLink]), hst]

/-- Parentheses around the tokens of a line take up one level and change nothing else. -/
theorem chain_parentheses (levels c col endCol : Nat) (hnest : nested 0 ts = true) :
    (chain (operand (levels + 1)) ⟨endCol, false⟩ (⟨.symbol .openParen, col⟩ :: closed c ts)).1 =
      (chain (operand levels) ⟨c, false⟩ ts).1 := by
  have hnil : (chain (operand levels) (.depth c 0) ts).2 = [] := chain_top (operand_suffix levels) c ts
  obtain ⟨-, hq⟩ := chain_alike (operand_suffix levels) (operand_alike c endCol levels) 0 ts hnest
  rw [hnil] at hq
  have hin : chain (operand levels) (Scope.inside ⟨endCol, false⟩) (closed c ts) =
      ((chain (operand levels) ⟨c, false⟩ ts).1, [⟨.symbol .closeParen, c⟩]) := hq
  have hgroup : operand (levels + 1) ⟨endCol, false⟩ (⟨.symbol .openParen, col⟩ :: closed c ts) = (_, []) :=
    group_closed (congrArg Prod.snd hin)
  rw [chain_of_rest_eq_nil (by rw [hgroup]), hgroup, hin]

/-- A line in parentheses has the tree of the line, with the columns of its errors one further right. The
line may be malformed, as long as its parentheses are well nested and fewer than `maxNesting` operands are
open at once while it is read. -/
theorem ofString?_parentheses {s : String} {e : Expr} (h : ofString? s = some e)
    (hline : ∀ c ∈ s.toList, Source.isLineEnd c = false)
    (hnest : nested 0 (Line.ofString s).tokens = true) (hopen : openedBy (Line.ofString s) < maxNesting) :
    ofString? ("(" ++ s ++ ")") = some (e.mapCols (· + 1)) := by
  have hlevels : chain (operand 127) ⟨(Line.ofString s).endCol, false⟩ (Line.ofString s).tokens =
      chain (operand maxNesting) ⟨(Line.ofString s).endCol, false⟩ (Line.ofString s).tokens :=
    chain_of_openedBy_le (by decide) (Nat.le_of_lt_succ hopen)
  have hmoved : chain (operand 127) ⟨(Line.ofString s).endCol + 1, false⟩ ((Line.ofString s).shift 1).tokens = _ :=
    chain_moved (operand_suffix 127) (operand_moves (· + 1) 127) ⟨(Line.ofString s).endCol, false⟩ _
  have hnest' : nested 0 ((Line.ofString s).shift 1).tokens = true := (nested_map _ 0 _).trans hnest
  have hchain := chain_parentheses 127 ((Line.ofString s).endCol + 1) 1 ((Line.ofString s).endCol + 2) hnest'
  rw [hmoved, hlevels] at hchain
  rw [ofString?, line_parentheses hline, ofLine?_eq_some h]
  exact congrArg some hchain

/-- The errors of a malformed line, inside and outside a group, move by the parenthesis in front. -/
theorem ofString?_parentheses_malformed :
    ofString? ("(" ++ "move 5 6 && (stop && let x)" ++ ")") =
      some (seq (error "unexpected '6'" 9) (seq stop (error "expected '='" 28))) :=
  ofString?_parentheses (s := "move 5 6 && (stop && let x)")
    (e := seq (error "unexpected '6'" 8) (seq stop (error "expected '='" 27)))
    (by decide +kernel) (by simp [Source.isLineEnd]) (by decide +kernel) (by decide +kernel)

end RobotShell.Expr
