import RobotShell.Expr.Parse
/-!
# What the grammar's rules leave unread

A rule reads some tokens from the front and leaves the rest. What a statement leaves is empty or
starts with a token that ends a statement, and what a whole chain leaves is empty or starts with
the parenthesis that closes its group. A chain is therefore its first statement and, behind a
`&&`, the chain of the others: `chain_induction` is the induction that goes with it.
-/

namespace RobotShell.Expr

variable {r : Rule} {s : Scope} {ts rest : List Token} {t : Token}

/-- The rule leaves an end piece of the tokens it is given. -/
def Shrinks (r : Rule) : Prop := ∀ s ts, (r s ts).2 <:+ ts

/-- The tokens are at their end, or what comes next may follow a statement. -/
def AtEnd (s : Scope) (ts : List Token) : Prop := ∀ t ∈ ts.head?, s.endsStatement t.kind = true

/-- The complaint about a token that cannot follow a statement. -/
def complaintAbout : Token.Kind → Complaint
  | .outOfRange => .integerOutOfRange
  | kind => .unexpected kind

theorem atEnd_or (s : Scope) (ts : List Token) :
    AtEnd s ts ∨ ∃ t rest, ts = t :: rest ∧ s.endsStatement t.kind = false := by
  cases ts with
  | nil => exact .inl (by simp [AtEnd])
  | cons t rest =>
    cases h : s.endsStatement t.kind with
    | true => exact .inl (by simpa [AtEnd] using h)
    | false => exact .inr ⟨t, rest, rfl, h⟩

/-- The next token is not `&&`. -/
def NoLink (ts : List Token) : Prop := ∀ t ∈ ts.head?, t.kind ≠ .symbol .andAnd

theorem noLink_or (ts : List Token) :
    NoLink ts ∨ ∃ col rest, ts = ⟨.symbol .andAnd, col⟩ :: rest := by
  rcases ts with _ | ⟨⟨kind, col⟩, rest⟩
  · exact .inl (by simp [NoLink])
  · by_cases h : kind = .symbol .andAnd
    · exact .inr ⟨col, rest, by rw [h]⟩
    · exact .inl (by simpa [NoLink] using h)

/-! ## Recovery -/

theorem resume_suffix (opened : Nat) (ts : List Token) : s.resume opened ts <:+ ts := by
  fun_induction Scope.resume s opened ts with
  | case1 | case2 | case3 => exact List.suffix_rfl
  | case4 | case5 | case6 | case7 => rename_i ih; exact ih.trans (List.suffix_cons _ _)

theorem resume_atEnd (opened : Nat) (ts : List Token) : AtEnd s (s.resume opened ts) := by
  fun_induction Scope.resume s opened ts with
  | case1 => simp [AtEnd]
  | case2 | case3 => simp_all [AtEnd, Scope.endsStatement]
  | case4 | case5 | case6 | case7 => assumption

theorem resume_of_atEnd (h : AtEnd s ts) : s.resume 0 ts = ts := by
  rcases ts with _ | ⟨⟨kind, col⟩, rest⟩
  · rfl
  · have h : s.endsStatement kind = true := h _ rfl
    cases kind with
    | symbol y => cases y <;> simp_all [Scope.endsStatement, Scope.resume]
    | _ => cases h

theorem failHere_suffix (c : Complaint) (ts : List Token) : (s.failHere c ts).2 <:+ ts :=
  resume_suffix 0 ts

/-! ## Nodes around an operand -/

theorem wrap_snd (build : Expr → Expr) (p : Expr × List Token) : (wrap build p).2 = p.2 := by
  obtain ⟨e, rest⟩ := p
  cases e <;> rfl

theorem wrap_error {build : Expr → Expr} {p : Expr × List Token} (h : p.1.isError = true) :
    wrap build p = p := by
  obtain ⟨e, rest⟩ := p
  cases e <;> simp_all [wrap, isError]

theorem wrap_of_not_error {build : Expr → Expr} {p : Expr × List Token} (h : p.1.isError = false) :
    wrap build p = (build p.1, p.2) := by
  obtain ⟨e, rest⟩ := p
  cases e <;> simp_all [wrap, isError]

theorem named_suffix {andThen : Name → List Token → Expr × List Token}
    (h : ∀ x rest, (andThen x rest).2 <:+ rest) : (named s ts andThen).2 <:+ ts := by
  unfold named
  split
  · exact (h _ _).trans (List.suffix_cons _ _)
  · exact failHere_suffix _ _

theorem wrap_suffix (hr : Shrinks r) (build : Expr → Expr) (ts : List Token) :
    (wrap build (r s ts)).2 <:+ ts := by
  rw [wrap_snd]
  exact hr s ts

theorem argument_suffix (hr : Shrinks r) (build : Expr → Expr) (ts : List Token) :
    (argument r build s ts).2 <:+ ts := by
  unfold argument
  split
  · exact failHere_suffix _ _
  · split
    · exact wrap_suffix hr _ _
    · exact failHere_suffix _ _

/-! ## Statements -/

theorem statement_of_atEnd (h : AtEnd s (r s ts).2) : statement r s ts = r s ts := by
  unfold statement
  rcases hp : r s ts with ⟨e, _ | ⟨t, rest⟩⟩
  · rfl
  · rw [hp] at h
    simp [h t rfl]

theorem statement_of_not_end (h : (r s ts).2 = t :: rest) (ht : s.endsStatement t.kind = false) :
    statement r s ts = s.fail (complaintAbout t.kind) t.col (t :: rest) := by
  obtain ⟨e, rest', hp⟩ : ∃ e rest', r s ts = (e, rest') := ⟨_, _, rfl⟩
  rw [hp] at h
  obtain rfl : rest' = t :: rest := h
  obtain ⟨kind, col⟩ := t
  cases kind <;> simp_all [statement, complaintAbout]

theorem statement_suffix (hr : Shrinks r) : Shrinks (statement r) := by
  intro s ts
  rcases atEnd_or s (r s ts).2 with h | ⟨t, rest, h, ht⟩
  · rw [statement_of_atEnd h]
    exact hr s ts
  · rw [statement_of_not_end h ht]
    exact (resume_suffix 0 _).trans (h ▸ hr s ts)

theorem statement_atEnd (r : Rule) (s : Scope) (ts : List Token) : AtEnd s (statement r s ts).2 := by
  rcases atEnd_or s (r s ts).2 with h | ⟨t, rest, h, ht⟩
  · rw [statement_of_atEnd h]
    exact h
  · rw [statement_of_not_end h ht]
    exact resume_atEnd 0 _

/-! ## Chains -/

/-- The node for a chain whose statements are given, all but the last with the latest first. -/
def joined (read : List Expr) (last : Expr) : Expr := read.foldl (fun later e => seq e later) last

theorem links_nil (read : List Expr) (last : Expr) (ts : List Token) :
    links r s [] read last ts = (joined read last, ts) := by
  unfold links
  rfl

theorem links_stop (budget : List Token) (read : List Expr) (last : Expr) (h : NoLink ts) :
    links r s budget read last ts = (joined read last, ts) := by
  unfold links
  split
  · exact absurd rfl (h _ rfl)
  · rfl

theorem links_link (b : Token) (budget : List Token) (read : List Expr) (last : Expr) (col : Nat)
    (rest : List Token) :
    links r s (b :: budget) read last (⟨.symbol .andAnd, col⟩ :: rest) =
      links r s budget (last :: read) (statement r s rest).1 (statement r s rest).2 := rfl

/-- The links read before do not change how the rest of the chain is read. -/
theorem links_read (budget : List Token) (read : List Expr) (last : Expr) (ts : List Token) :
    links r s budget read last ts =
      (joined read (links r s budget [] last ts).1, (links r s budget [] last ts).2) := by
  induction budget generalizing read last ts with
  | nil => rw [links_nil, links_nil]; rfl
  | cons b budget ih =>
    rcases noLink_or ts with h | ⟨col, rest, rfl⟩
    · rw [links_stop _ _ _ h, links_stop _ _ _ h]; rfl
    · rw [links_link, links_link, ih (last :: read), ih [last]]; rfl

/-- Any budget that covers the tokens reads the same chain. -/
theorem links_budget (hr : Shrinks r) (b₁ b₂ : List Token) (last : Expr) (ts : List Token)
    (h₁ : ts.length ≤ b₁.length) (h₂ : ts.length ≤ b₂.length) :
    links r s b₁ [] last ts = links r s b₂ [] last ts := by
  induction b₁ generalizing b₂ last ts with
  | nil =>
    obtain rfl : ts = [] := List.length_eq_zero_iff.1 (Nat.le_zero.1 h₁)
    rw [links_stop _ _ _ (by simp [NoLink]), links_stop _ _ _ (by simp [NoLink])]
  | cons t₁ b₁ ih =>
    rcases noLink_or ts with h | ⟨col, rest, rfl⟩
    · rw [links_stop _ _ _ h, links_stop _ _ _ h]
    · rcases b₂ with _ | ⟨t₂, b₂⟩
      · simp at h₂
      · have hle := (statement_suffix hr s rest).length_le
        simp only [List.length_cons] at h₁ h₂
        rw [links_link, links_link, links_read, links_read b₂, ih b₂ _ _ (by omega) (by omega)]

theorem chain_last (h : NoLink (statement r s ts).2) : chain r s ts = statement r s ts :=
  links_stop _ _ _ h

theorem chain_link (hr : Shrinks r) (h : (statement r s ts).2 = t :: rest)
    (ht : t.kind = .symbol .andAnd) :
    chain r s ts = (seq (statement r s ts).1 (chain r s rest).1, (chain r s rest).2) := by
  obtain ⟨kind, col⟩ := t
  obtain rfl : kind = .symbol .andAnd := ht
  have hle := (statement_suffix hr s rest).length_le
  -- the budget that is left covers more than the tokens that are left
  have hb := links_budget (s := s) hr rest (statement r s rest).2 (statement r s rest).1
    (statement r s rest).2 hle (Nat.le_refl _)
  simp only [chain]
  rw [h, links_link, links_read, hb]
  rfl

/-- Induction along a chain: what holds of every last statement, and of a statement with the chain
behind its `&&`, holds of every chain. -/
theorem chain_induction (hr : Shrinks r) (s : Scope) {P : List Token → Expr × List Token → Prop}
    (last : ∀ ts, NoLink (statement r s ts).2 → P ts (statement r s ts))
    (link : ∀ ts t rest, (statement r s ts).2 = t :: rest → t.kind = .symbol .andAnd →
      P rest (chain r s rest) →
      P ts (seq (statement r s ts).1 (chain r s rest).1, (chain r s rest).2))
    (ts : List Token) : P ts (chain r s ts) := by
  induction hn : ts.length using Nat.strongRecOn generalizing ts with
  | _ n ih =>
    rcases noLink_or (statement r s ts).2 with h | ⟨col, rest, h⟩
    · rw [chain_last h]
      exact last ts h
    · have hle := (statement_suffix hr s ts).length_le
      rw [h, List.length_cons] at hle
      rw [chain_link hr h rfl]
      exact link ts _ rest h rfl (ih _ (by omega) rest rfl)

theorem chain_suffix (hr : Shrinks r) : Shrinks (chain r) := by
  intro s ts
  refine chain_induction hr s (P := fun ts p => p.2 <:+ ts) (fun ts _ => statement_suffix hr s ts) ?_ ts
  intro ts t rest h _ ih
  exact ih.trans ((List.suffix_cons t rest).trans (h ▸ statement_suffix hr s ts))

/-- A chain leaves a token only where that may follow a statement and is no `&&`. -/
theorem chain_atEnd (hr : Shrinks r) (s : Scope) (ts : List Token) :
    AtEnd s (chain r s ts).2 ∧ NoLink (chain r s ts).2 :=
  chain_induction hr s (P := fun _ p => AtEnd s p.2 ∧ NoLink p.2)
    (fun ts h => ⟨statement_atEnd r s ts, h⟩) (fun _ _ _ _ _ ih => ih) ts

/-- What ends a chain inside a group is the end of the line or the group's close. -/
theorem chain_rest (hr : Shrinks r) (s : Scope) (ts : List Token) :
    (chain r s ts).2 = [] ∨
      s.grouped = true ∧ ∃ col rest, (chain r s ts).2 = ⟨.symbol .closeParen, col⟩ :: rest := by
  obtain ⟨hend, hlink⟩ := chain_atEnd hr s ts
  rcases hc : (chain r s ts).2 with _ | ⟨⟨kind, col⟩, rest⟩
  · exact .inl rfl
  · rw [hc] at hend hlink
    have hend : s.endsStatement kind = true := hend _ rfl
    have hlink : kind ≠ .symbol .andAnd := hlink _ rfl
    cases kind with
    | symbol y =>
      cases y with
      | closeParen => exact .inr ⟨hend, col, rest, rfl⟩
      | _ => simp_all [Scope.endsStatement]
    | _ => simp [Scope.endsStatement] at hend

/-- At the top level a chain leaves nothing. -/
theorem chain_top (hr : Shrinks r) (endCol : Nat) (ts : List Token) :
    (chain r ⟨endCol, false⟩ ts).2 = [] := by
  rcases chain_rest hr ⟨endCol, false⟩ ts with h | ⟨h, -⟩
  · exact h
  · cases h

/-! ## Operands -/

/-- The scope of what stands in parentheses. -/
def Scope.inside (s : Scope) : Scope := { s with grouped := true }

theorem group_closed {col : Nat} (h : (chain r s.inside ts).2 = ⟨.symbol .closeParen, col⟩ :: rest) :
    group r s ts = ((chain r s.inside ts).1, rest) := by
  obtain ⟨e, left, hc⟩ : ∃ e left, chain r s.inside ts = (e, left) := ⟨_, _, rfl⟩
  rw [hc] at h ⊢
  obtain rfl : left = ⟨.symbol .closeParen, col⟩ :: rest := h
  unfold group
  rw [show chain r { s with grouped := true } ts = _ from hc]

theorem group_unclosed (h : (chain r s.inside ts).2 = []) :
    group r s ts = (if (chain r s.inside ts).1.isError then (chain r s.inside ts).1
      else error Complaint.closeExpected.text s.endCol, []) := by
  obtain ⟨e, left, hc⟩ : ∃ e left, chain r s.inside ts = (e, left) := ⟨_, _, rfl⟩
  rw [hc] at h ⊢
  obtain rfl : left = [] := h
  unfold group
  rw [show chain r { s with grouped := true } ts = _ from hc]
  cases e <;> rfl

theorem group_suffix (hr : Shrinks r) : Shrinks (group r) := by
  intro s ts
  have hsuf := chain_suffix hr s.inside ts
  rcases chain_rest hr s.inside ts with h | ⟨-, col, rest, h⟩
  · rw [group_unclosed h]
    exact List.nil_suffix
  · rw [group_closed h]
    exact (List.suffix_cons _ _).trans (h ▸ hsuf)

theorem keyworded_suffix (hr : Shrinks r) (k : Keyword) : Shrinks (keyworded r k) := by
  intro s ts
  cases k with
  | quit | stop | help | landmark | inventory | marketPrices | cityPrices => exact List.suffix_rfl
  | echo => exact named_suffix fun x rest => List.suffix_rfl
  | rotate | move => exact argument_suffix hr _ ts
  | buy | sell => exact named_suffix fun x rest => wrap_suffix hr _ rest
  | assign =>
    refine named_suffix fun x rest => ?_
    split
    · exact (wrap_suffix hr _ _).trans (List.suffix_cons _ _)
    · exact failHere_suffix _ _

theorem primary_suffix (hr : Shrinks r) : Shrinks (primary r) := by
  intro s ts
  rcases ts with _ | ⟨t, rest⟩
  · exact failHere_suffix _ _
  · obtain ⟨kind, col⟩ := t
    have hrest : rest <:+ ⟨kind, col⟩ :: rest := List.suffix_cons _ rest
    cases kind with
    | keyword k => exact (keyworded_suffix hr k s rest).trans hrest
    | name x | integer n => exact hrest
    | outOfRange | stray c => exact (resume_suffix 0 rest).trans hrest
    | symbol y =>
      cases y with
      | equals | andAnd => exact (resume_suffix 0 rest).trans hrest
      | openParen => exact (group_suffix hr s rest).trans hrest
      | closeParen =>
        refine (resume_suffix 0 _).trans ?_
        split
        · exact List.suffix_rfl
        · exact hrest

theorem operand_suffix (levels : Nat) : Shrinks (operand levels) := by
  induction levels with
  | zero => exact fun s ts => failHere_suffix _ ts
  | succ levels ih => exact primary_suffix ih

/-! ## Lines -/

theorem ofLine?_eq_none {l : Line} : ofLine? l = none ↔ l.tokens = [] := by
  unfold ofLine?
  split <;> simp_all

theorem ofLine?_eq_some {l : Line} {e : Expr} (h : ofLine? l = some e) :
    e = (chain (operand maxNesting) ⟨l.endCol, false⟩ l.tokens).1 := by
  unfold ofLine? at h
  split at h
  · cases h
  · exact (Option.some.inj h).symm

end RobotShell.Expr
