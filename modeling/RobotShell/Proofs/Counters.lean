import RobotShell.Proofs.Descent
import RobotShell.Proofs.Nesting
/-!
# Reading ends cleanly

The counters that go along while a line is read tell how many parentheses and operands are open, and never
more than `maxNesting` operands are. When the line has been read, nothing is open, and the line's end is what
comes next. As operands stand in one another only so deep, the tree of a line is shallow: a chain may be of
any length, but no way into the tree leaves the right edges of its chains often.
-/

namespace RobotShell

open RobotShell.Expr Relation

/-! ## How deep a tree is -/

namespace Expr

/-- How deep a tree is, where the right part of a chain lies no deeper than the chain. -/
def depth : Expr → Nat
  | seq left right => max (left.depth + 1) right.depth
  | assign _ e | rotate e | move e | buy _ e | sell _ e => e.depth + 1
  | _ => 0

/-- Whether the step leads further down than along a chain. -/
def Step.descends : Step → Bool
  | right => false
  | _ => true

/-- The way to a part of a tree descends no further than the tree is deep. -/
theorem depth_of_at? {e f : Expr} {place : List Step} (h : e.at? place = some f) :
    place.countP Step.descends + f.depth ≤ e.depth := by
  fun_induction at? e place with
  | case1 e =>
    cases h
    simp
  | case2 left right place ih =>
    have hleft := ih h
    simp only [List.countP_cons, Step.descends, depth, if_true]
    omega
  | case3 left right place ih =>
    have hright := ih h
    simp only [List.countP_cons, Step.descends, depth]
    exact hright.trans (Nat.le_max_right _ _)
  | case9 => cases h
  | _ =>
    rename_i ih
    have hbelow := ih h
    simp only [List.countP_cons, Step.descends, depth, if_true]
    omega

theorem node_depth (v : Verb) (e : Expr) : (v.node e).depth = e.depth + 1 := by
  cases v <;> rfl

end Expr

namespace Opening

/-- The tokens behind what has been read. -/
def rest : Opening → List Token
  | whole _ rest | malformed _ _ rest | verb _ rest | group rest => rest

/-- How deep the tree is that has been read, if there is one. -/
def depth : Opening → Nat
  | whole e _ => e.depth
  | _ => 0

/-- The opening takes tokens from the front, and no tree with operands in it. -/
structure Begins (ts : List Token) (o : Opening) : Prop where
  rest : o.rest <:+ ts
  depth : o.depth = 0

variable {s : Scope} {ts : List Token}

theorem Begins.behind {o : Opening} {t : Token} (h : Begins ts o) : Begins (t :: ts) o :=
  ⟨h.rest.trans (List.suffix_cons t ts), h.depth⟩

theorem named_begins {andThen : Name → List Token → Opening} (h : ∀ x rest, Begins rest (andThen x rest)) :
    Begins ts (named s ts andThen) := by
  unfold named
  split
  · exact (h _ _).behind
  · exact ⟨List.suffix_rfl, rfl⟩

theorem argument_begins (v : Verb) : Begins ts (argument v s ts) := by
  unfold argument
  split
  · exact ⟨List.suffix_rfl, rfl⟩
  · split <;> exact ⟨List.suffix_rfl, rfl⟩

theorem ofKeyword_begins (k : Keyword) : Begins ts (ofKeyword k s ts) := by
  cases k with
  | quit | stop | help | landmark | inventory | marketPrices | cityPrices => exact ⟨List.suffix_rfl, rfl⟩
  | rotate | move => exact argument_begins _
  | echo | buy | sell => exact named_begins fun x rest => ⟨List.suffix_rfl, rfl⟩
  | assign =>
    refine named_begins fun x rest => ?_
    split
    · exact ⟨List.suffix_cons _ _, rfl⟩
    · exact ⟨List.suffix_rfl, rfl⟩

theorem ofTokens_begins (s : Scope) (ts : List Token) : Begins ts (ofTokens s ts) := by
  rcases ts with _ | ⟨⟨kind, col⟩, rest⟩
  · exact ⟨List.suffix_rfl, rfl⟩
  · cases kind with
    | keyword k => exact (ofKeyword_begins k).behind
    | name | integer | outOfRange | stray => exact ⟨List.suffix_cons _ _, rfl⟩
    | symbol y =>
      cases y with
      | equals | andAnd | openParen => exact ⟨List.suffix_cons _ _, rfl⟩
      | closeParen =>
        refine ⟨?_, rfl⟩
        show (if s.grouped then _ else _) <:+ _
        split
        · exact List.suffix_rfl
        · exact List.suffix_cons _ _

end Opening

namespace Expr

/-! ### Rules -/

variable {e : Expr} {r : Rule} {s : Scope} {ts : List Token} {n : Nat}

theorem statement_depth (hr : ∀ s ts, (r s ts).1.depth ≤ n) (s : Scope) (ts : List Token) :
    (statement r s ts).1.depth ≤ n := by
  rcases atEnd_or s (r s ts).2 with hend | ⟨t, rest, hrest, ht⟩
  · rw [statement_of_atEnd hend]
    exact hr s ts
  · rw [statement_of_not_end hrest ht]
    exact Nat.zero_le n

/-- A chain, however long, is one deeper than its statements. -/
theorem chain_depth (hs : Shrinks r) (hr : ∀ s ts, (r s ts).1.depth ≤ n) (s : Scope) (ts : List Token) :
    (chain r s ts).1.depth ≤ n + 1 :=
  chain_induction hs s (P := fun _ q => q.1.depth ≤ n + 1)
    (fun ts _ => Nat.le_succ_of_le (statement_depth hr s ts))
    (fun ts _ _ _ _ ih => Nat.max_le.2 ⟨Nat.succ_le_succ (statement_depth hr s ts), ih⟩) ts

theorem group_depth (hs : Shrinks r) (hr : ∀ s ts, (r s ts).1.depth ≤ n) (s : Scope) (ts : List Token) :
    (group r s ts).1.depth ≤ n + 1 := by
  have hchain := chain_depth hs hr s.inside ts
  rcases chain_rest hs s.inside ts with hrest | ⟨-, col, rest, hrest⟩
  · rw [group_unclosed hrest]
    dsimp only
    split
    · exact hchain
    · exact Nat.zero_le (n + 1)
  · rw [group_closed hrest]
    exact hchain

theorem primary_depth (hs : Shrinks r) (hr : ∀ s ts, (r s ts).1.depth ≤ n) (s : Scope) (ts : List Token) :
    (primary r s ts).1.depth ≤ n + 1 := by
  have hbegins := Opening.ofTokens_begins s ts
  rw [← Opening.read_ofTokens]
  cases hopening : Opening.ofTokens s ts with
  | whole e rest =>
    rw [hopening] at hbegins
    exact (Nat.le_of_eq hbegins.depth).trans (Nat.zero_le (n + 1))
  | malformed c col rest => exact Nat.zero_le (n + 1)
  | group rest => exact group_depth hs hr s rest
  | verb v rest =>
    rw [Opening.read_verb]
    dsimp only
    split
    · exact Nat.le_succ_of_le (hr s rest)
    · rw [node_depth]
      exact Nat.succ_le_succ (hr s rest)

theorem operand_depth (levels : Nat) (s : Scope) (ts : List Token) : (operand levels s ts).1.depth ≤ levels := by
  induction levels generalizing s ts with
  | zero => exact Nat.le_refl 0
  | succ levels ih => exact primary_depth (operand_suffix levels) ih s ts

theorem ofLine?_depth {l : Line} (h : ofLine? l = some e) : e.depth ≤ maxNesting + 1 := by
  rw [ofLine?_eq_some h]
  exact chain_depth (operand_suffix maxNesting) (operand_depth maxNesting) _ _

end Expr

/-! ## The counters -/

def Pending.isGroup : Pending → Bool
  | group => true
  | _ => false

def Pending.isOperand : Pending → Bool
  | operand => true
  | _ => false

namespace Descent

/-- The counters of a moment tell how many groups and operands are under way, and only so many operands are as may
be. What has been read of the line is behind. -/
structure Balanced (l : Line) (d : Descent) : Prop where
  ahead : d.ahead <:+ l.tokens
  endCol : d.endCol = l.endCol
  parens : d.parens = d.pending.countP Pending.isGroup
  nesting : d.nesting = d.pending.countP Pending.isOperand
  bounded : d.nesting ≤ maxNesting

variable {l : Line} {d d' : Descent} {e : Expr} {ts : List Token}

theorem balanced_start (l : Line) : Balanced l (start l) := ⟨List.suffix_rfl, rfl, rfl, rfl, Nat.zero_le _⟩

theorem Balanced.move (h : Balanced l d) (hts : ts <:+ d.ahead) (task : Task) :
    Balanced l { d with task := task, ahead := ts } :=
  ⟨hts.trans h.ahead, h.endCol, h.parens, h.nesting, h.bounded⟩

theorem Balanced.skip (h : Balanced l d) (inside : Nat) (e : Expr) : Balanced l (d.skip inside e) := by
  have hstay : Balanced l (d.give e) := h.move List.suffix_rfl _
  unfold Descent.skip
  split
  · exact hstay
  · next t rest hahead =>
    have hrest : rest <:+ d.ahead := hahead ▸ List.suffix_cons t rest
    split
    · exact hstay
    · split
      · exact hstay
      · exact h.move hrest _
    all_goals exact h.move hrest _

theorem Balanced.proceed (h : Balanced l d) {o : Opening} (ho : o.rest <:+ d.ahead) : Balanced l (d.proceed o) := by
  cases o with
  | whole | malformed => exact h.move ho _
  | verb v rest => exact ⟨ho.trans h.ahead, h.endCol, h.parens, h.nesting, h.bounded⟩
  | group rest =>
    refine ⟨ho.trans h.ahead, h.endCol, ?_, h.nesting, h.bounded⟩
    simp [Descent.proceed, h.parens, List.countP_cons, Pending.isGroup]

theorem Balanced.takeUp {p : Pending} (h : Balanced l { d with pending := p :: d.pending }) :
    Balanced l (d.takeUp e p) := by
  obtain ⟨hahead, hendCol, hparens, hnesting, hbounded⟩ := h
  simp only [List.countP_cons] at hparens hnesting hbounded
  cases p with
  | statement =>
    have hd : Balanced l d := ⟨hahead, hendCol, hparens, hnesting, hbounded⟩
    simp only [Descent.takeUp]
    split
    · exact hd.move List.suffix_rfl _
    · split <;> exact hd.move List.suffix_rfl _
  | chain read =>
    have hd : Balanced l d := ⟨hahead, hendCol, hparens, hnesting, hbounded⟩
    simp only [Descent.takeUp]
    split
    · next col rest hrest =>
      have hsuf : rest <:+ d.ahead := hrest ▸ List.suffix_cons _ rest
      exact ⟨hsuf.trans hahead, hendCol, hparens, hnesting, hbounded⟩
    · exact hd.move List.suffix_rfl _
  | verb v => exact ⟨hahead, hendCol, hparens, hnesting, hbounded⟩
  | operand => exact ⟨hahead, hendCol, hparens, Nat.sub_eq_of_eq_add hnesting, (Nat.sub_le _ _).trans hbounded⟩
  | group =>
    have hclosed : d.parens - 1 = d.pending.countP Pending.isGroup := Nat.sub_eq_of_eq_add hparens
    simp only [Descent.takeUp]
    split
    · next col rest hrest =>
      have hsuf : rest <:+ d.ahead := hrest ▸ List.suffix_cons _ rest
      exact ⟨hsuf.trans hahead, hendCol, hclosed, hnesting, hbounded⟩
    · exact ⟨hahead, hendCol, hclosed, hnesting, hbounded⟩

theorem Balanced.step (h : Balanced l d) (hstep : d.step = some d') : Balanced l d' := by
  obtain ⟨task, ps, ts, endCol, parens, n⟩ := d
  cases task with
  | line =>
    simp only [Descent.step] at hstep
    split at hstep
    · cases hstep
    · cases hstep
      exact h.move List.suffix_rfl _
  | chain =>
    cases hstep
    exact ⟨h.ahead, h.endCol, h.parens, h.nesting, h.bounded⟩
  | operand =>
    simp only [Descent.step] at hstep
    split at hstep
    · cases hstep
      exact h.move List.suffix_rfl _
    · cases hstep
      have hnesting : n = ps.countP Pending.isOperand := h.nesting
      have hroom : n + 1 ≤ maxNesting := by omega
      refine ⟨h.ahead, h.endCol, h.parens, ?_, hroom⟩
      simp [hnesting, List.countP_cons, Pending.isOperand]
  | primary =>
    cases hstep
    exact h.proceed (Opening.ofTokens_begins _ ts).rest
  | skip inside e =>
    cases hstep
    exact h.skip inside e
  | give e =>
    cases ps with
    | nil => cases hstep
    | cons p ps =>
      cases hstep
      have hp : Balanced l ⟨.give e, p :: ps, ts, endCol, parens, n⟩ := h
      exact hp.takeUp

theorem balanced_of_steps (h : Steps (start l) d) : Balanced l d := by
  induction h with
  | refl => exact balanced_start l
  | tail _ hstep ih => exact ih.step hstep

/-! ## Lines -/

/-- How a line is read, where `last` is the moment when all is done. -/
structure Ends (l : Line) (last : Descent) : Prop where
  /-- From every moment reading goes on to the last one, and no further. -/
  reached : ∀ d, Steps (start l) d → Steps d last
  stops : last.step = none
  tree : last.tree? = ofLine? l
  /-- The line's end comes next: every token has been consumed. -/
  current : last.current = .lineEnd l.endCol
  parens : last.parens = 0
  nesting : last.nesting = 0
  balanced : ∀ d, Steps (start l) d → Balanced l d

variable {last : Descent}

/-- Where all is done, no rule is under way, and so the counters are back. -/
theorem ends_of_steps (h : Steps (start l) last) (hstops : last.step = none) (htree : last.tree? = ofLine? l)
    (hahead : last.ahead = []) (hpending : last.pending = []) : Ends l last := by
  have hbalanced := balanced_of_steps h
  refine ⟨fun d hd => h.to_end hstops hd, hstops, htree, ?_, ?_, ?_, fun d hd => balanced_of_steps hd⟩
  · rw [current, hahead, hbalanced.endCol]
  · rw [hbalanced.parens, hpending]
    rfl
  · rw [hbalanced.nesting, hpending]
    rfl

theorem exists_ends (l : Line) : ∃ last, Ends l last := by
  by_cases hblank : l.tokens = []
  · refine ⟨start l, ends_of_steps .refl ?_ ?_ hblank rfl⟩
    · simp [step, start, hblank]
    · exact (ofLine?_eq_none.2 hblank).symm
  · obtain ⟨e, he⟩ : ∃ e, ofLine? l = some e := Option.ne_none_iff_exists'.1 fun hnone => hblank (ofLine?_eq_none.1 hnone)
    refine ⟨_, ends_of_steps (line_steps hblank) rfl ?_ rfl rfl⟩
    rw [he, ofLine?_eq_some he]
    rfl

end Descent

/-- Reading a line comes to an end, which is the line's end, with the tree of the line. No rule is then under way, and
on the way the counters tell how many are, never more than `maxNesting` operands. And so the tree is shallow: no way
into it has more than `maxNesting + 1` steps that do not go along a chain. -/
theorem Expr.ofString?_ends (line : String) :
    (∃ last, Descent.Ends (Line.ofString line) last) ∧
      ∀ e, ofString? line = some e → ∀ place f, e.at? place = some f →
        place.countP Step.descends ≤ maxNesting + 1 := by
  refine ⟨Descent.exists_ends _, fun e he place f hf => ?_⟩
  have hplace := depth_of_at? hf
  have hdepth : e.depth ≤ maxNesting + 1 := ofLine?_depth he
  omega

end RobotShell
