import Mathlib.Logic.Relation
import RobotShell.Proofs.Recovery
/-!
# Reading a line, one step at a time

The rules of the grammar apply one another. Here each rule is taken apart into steps, and what the rules
that are under way have still to do stands on a stack. Two counters go along: of the parentheses that are
open and of the operands that are open. Whatever rules are under way, a rule comes to the tree that it gives
and to the tokens that it leaves, and both counters stand again where they stood before.
-/

namespace RobotShell

open RobotShell.Expr Relation

/-- A keyword that takes an operand, with the name in front of the operand if there is one. -/
inductive Verb where
  | assign (x : Name)
  | rotate
  | move
  | buy (ware : Name)
  | sell (ware : Name)

/-- The node around the operand. -/
def Verb.node : Verb → Expr → Expr
  | assign x => .assign x
  | rotate => .rotate
  | move => .move
  | buy x => .buy x
  | sell x => .sell x

/-- What the tokens at the front of an operand make of it. -/
inductive Opening where
  /-- The operand has been read. -/
  | whole (e : Expr) (rest : List Token)
  /-- The operand cannot be read, and recovery starts behind them. -/
  | malformed (c : Complaint) (col : Nat) (rest : List Token)
  /-- The operand of a verb comes next. -/
  | verb (v : Verb) (rest : List Token)
  /-- A chain in parentheses comes next. -/
  | group (rest : List Token)

namespace Opening

variable {r : Rule} {s : Scope} {ts : List Token}

/-- A complaint about what comes next. -/
def malformedHere (s : Scope) (c : Complaint) (ts : List Token) : Opening := .malformed c (s.col ts) ts

/-- A name comes first. -/
def named (s : Scope) (ts : List Token) (andThen : Name → List Token → Opening) : Opening :=
  match ts with
  | ⟨.name x, _⟩ :: rest => andThen x rest
  | _ => malformedHere s .nameExpected ts

/-- The operand of the verb has to start as an argument does. -/
def argument (v : Verb) (s : Scope) (ts : List Token) : Opening :=
  match ts with
  | [] => malformedHere s .argumentExpected ts
  | t :: _ => if startsArgument t.kind then .verb v ts else malformedHere s .argumentExpected ts

def ofKeyword (k : Keyword) (s : Scope) (ts : List Token) : Opening :=
  match k with
  | .quit => .whole .quit ts
  | .stop => .whole .stop ts
  | .help => .whole .help ts
  | .landmark => .whole .landmark ts
  | .inventory => .whole .inventory ts
  | .marketPrices => .whole .marketPrices ts
  | .cityPrices => .whole .cityPrices ts
  | .assign => named s ts fun x rest =>
    match rest with
    | ⟨.symbol .equals, _⟩ :: rest => .verb (.assign x) rest
    | rest => malformedHere s .equalsExpected rest
  | .echo => named s ts fun x rest => .whole (.echo x) rest
  | .rotate => argument .rotate s ts
  | .move => argument .move s ts
  | .buy => named s ts fun x rest => .verb (.buy x) rest
  | .sell => named s ts fun x rest => .verb (.sell x) rest

/-- What comes first in an operand. -/
def ofTokens (s : Scope) (ts : List Token) : Opening :=
  match ts with
  | [] => malformedHere s .operandExpected []
  | t :: rest =>
    match t.kind with
    | .keyword k => ofKeyword k s rest
    | .name x => .whole (.name x) rest
    | .integer n => .whole (.int n) rest
    | .outOfRange => .malformed .integerOutOfRange t.col rest
    | .symbol .openParen => .group rest
    | .symbol .closeParen => .malformed .operandExpected t.col (if s.grouped then t :: rest else rest)
    | .symbol _ | .stray _ => .malformed .operandExpected t.col rest

/-- Reads the operand behind its opening, by a rule for the operands in it. -/
def read (r : Rule) (s : Scope) : Opening → Expr × List Token
  | whole e rest => (e, rest)
  | malformed c col rest => s.fail c col rest
  | verb v rest => wrap v.node (r s rest)
  | group rest => Expr.group r s rest

theorem read_verb (v : Verb) : (verb v ts).read r s =
    (if (r s ts).1.isError then (r s ts).1 else v.node (r s ts).1, (r s ts).2) := by
  unfold read
  cases hE : (r s ts).1.isError with
  | true => exact wrap_error hE
  | false => exact wrap_of_not_error hE

theorem read_named {f : Name → List Token → Expr × List Token} {g : Name → List Token → Opening}
    (h : ∀ x rest, (g x rest).read r s = f x rest) : (named s ts g).read r s = Expr.named s ts f := by
  rcases ts with _ | ⟨⟨kind, col⟩, rest⟩
  · rfl
  · cases kind with
    | name x => exact h x rest
    | _ => rfl

theorem read_argument (v : Verb) : (argument v s ts).read r s = Expr.argument r v.node s ts := by
  rcases ts with _ | ⟨t, rest⟩
  · rfl
  · unfold argument Expr.argument
    dsimp only
    split <;> rfl

theorem read_ofKeyword (k : Keyword) : (ofKeyword k s ts).read r s = keyworded r k s ts := by
  cases k with
  | quit | stop | help | landmark | inventory | marketPrices | cityPrices => rfl
  | rotate | move => exact read_argument _
  | echo | buy | sell => exact read_named fun x rest => rfl
  | assign =>
    refine read_named fun x rest => ?_
    rcases rest with _ | ⟨⟨kind, col⟩, rest⟩
    · rfl
    · cases kind with
      | symbol y => cases y <;> rfl
      | _ => rfl

/-- An operand is read by its opening. -/
theorem read_ofTokens (r : Rule) (s : Scope) (ts : List Token) : (ofTokens s ts).read r s = primary r s ts := by
  rcases ts with _ | ⟨⟨kind, col⟩, rest⟩
  · rfl
  · cases kind with
    | keyword k => exact read_ofKeyword k
    | symbol y => cases y <;> rfl
    | _ => rfl

end Opening

/-- What is done next. -/
inductive Task where
  /-- Reads a line, if it is not blank. -/
  | line
  /-- Reads a chain. -/
  | chain
  /-- Reads an operand, if one more may be open. -/
  | operand
  /-- Reads an operand that has been opened. -/
  | primary
  /-- Recovers, `inside` so many parentheses that were opened on the way, and gives an error node. -/
  | skip (inside : Nat) (e : Expr)
  /-- Gives a tree to the rule that has asked for it. -/
  | give (e : Expr)

/-- What a rule that is under way does with the tree that it is given. -/
inductive Pending where
  /-- A statement ends behind it. -/
  | statement
  /-- A chain may go on behind it; `read` holds the statements in front of it, the latest first. -/
  | chain (read : List Expr)
  /-- An operand is closed. -/
  | operand
  /-- A verb puts its node around it. -/
  | verb (v : Verb)
  /-- A group is closed. -/
  | group

/-- A moment in which a line is read. -/
structure Descent where
  task : Task
  /-- The rules that are under way, the innermost first. -/
  pending : List Pending
  /-- The tokens up to the line's end that have not been consumed. -/
  ahead : List Token
  endCol : Nat
  /-- The count of open parentheses. -/
  parens : Nat
  /-- The count of open operands. -/
  nesting : Nat

namespace Descent

/-- Before a line is read. -/
def start (l : Line) : Descent := ⟨.line, [], l.tokens, l.endCol, 0, 0⟩

def scope (d : Descent) : Scope := .depth d.endCol d.parens

def give (d : Descent) (e : Expr) : Descent := { d with task := .give e }

def fail (d : Descent) (c : Complaint) (col : Nat) : Descent := { d with task := .skip 0 (error c.text col) }

/-- Skips one token, or ends recovery. -/
def skip (d : Descent) (inside : Nat) (e : Expr) : Descent :=
  match d.ahead with
  | [] => d.give e
  | t :: rest =>
    match t.kind, inside with
    | .symbol .andAnd, 0 => d.give e
    | .symbol .closeParen, 0 => if 0 < d.parens then d.give e else { d with task := .skip 0 e, ahead := rest }
    | .symbol .closeParen, inside + 1 => { d with task := .skip inside e, ahead := rest }
    | .symbol .openParen, inside => { d with task := .skip (inside + 1) e, ahead := rest }
    | _, inside => { d with task := .skip inside e, ahead := rest }

/-- Goes on behind the opening of an operand. -/
def proceed (d : Descent) : Opening → Descent
  | .whole e rest => { d with task := .give e, ahead := rest }
  | .malformed c col rest => fail { d with ahead := rest } c col
  | .verb v rest => { d with task := .operand, pending := .verb v :: d.pending, ahead := rest }
  | .group rest => { d with task := .chain, pending := .group :: d.pending, ahead := rest, parens := d.parens + 1 }

/-- Takes up a rule again, which is given a tree. -/
def takeUp (d : Descent) (e : Expr) : Pending → Descent
  | .statement =>
    match d.ahead with
    | [] => d.give e
    | t :: _ => if d.scope.endsStatement t.kind then d.give e else d.fail (complaintAbout t.kind) t.col
  | .chain read =>
    match d.ahead with
    | ⟨.symbol .andAnd, _⟩ :: rest =>
      { d with task := .operand, pending := .statement :: .chain (e :: read) :: d.pending, ahead := rest }
    | _ => d.give (joined read e)
  | .operand => { d with task := .give e, nesting := d.nesting - 1 }
  | .verb v => d.give (if e.isError then e else v.node e)
  | .group =>
    match d.ahead with
    | ⟨.symbol .closeParen, _⟩ :: rest => { d with task := .give e, ahead := rest, parens := d.parens - 1 }
    | ahead =>
      { d with
        task := .give (if e.isError then e else error Complaint.closeExpected.text (d.scope.col ahead))
        parens := d.parens - 1 }

/-- The next moment. There is none where a blank line has been met, or no rule asks for the tree that is given. -/
def step (d : Descent) : Option Descent :=
  match d.task with
  | .line => if d.ahead.isEmpty then none else some { d with task := .chain }
  | .chain => some { d with task := .operand, pending := .statement :: .chain [] :: d.pending }
  | .operand =>
    if maxNesting ≤ d.nesting then some (d.fail .nestedTooDeeply (d.scope.col d.ahead))
    else some { d with task := .primary, pending := .operand :: d.pending, nesting := d.nesting + 1 }
  | .primary => some (d.proceed (.ofTokens d.scope d.ahead))
  | .skip inside e => some (d.skip inside e)
  | .give e =>
    match d.pending with
    | [] => none
    | p :: ps => some (takeUp { d with pending := ps } e p)

/-- Any number of steps. -/
abbrev Steps : Descent → Descent → Prop := ReflTransGen fun d d' => d.step = some d'

/-- The tree that has been given, when all is done. -/
def tree? (d : Descent) : Option Expr :=
  match d.task with
  | .give e => some e
  | _ => none

/-- What comes next on the line. -/
def current (d : Descent) : Reading :=
  match d.ahead with
  | [] => .lineEnd d.endCol
  | t :: _ => .token t

section

/-! ## Every rule comes to its end -/

variable {r : Rule} {ps : List Pending} {ts : List Token} {endCol parens n : Nat}

/-- The task comes to its end with a tree and the tokens behind it. `ps` is then pending, and all else is as before. -/
def Gives (d : Descent) (ps : List Pending) (q : Expr × List Token) : Prop :=
  Steps d { d with task := .give q.1, pending := ps, ahead := q.2 }

/-- With `n` operands open already, operands are read as the rule says. -/
def Performs (endCol n : Nat) (r : Rule) : Prop :=
  ∀ ps ts parens, Gives ⟨.operand, ps, ts, endCol, parens, n⟩ ps (r (.depth endCol parens) ts)

/-- Recovery ends, and it ends where the rules say. -/
theorem skip_gives (inside : Nat) (e : Expr) (ts : List Token) :
    Gives ⟨.skip inside e, ps, ts, endCol, parens, n⟩ ps (e, (Scope.depth endCol parens).resume inside ts) := by
  induction ts generalizing inside with
  | nil => exact .single rfl
  | cons t ts ih =>
    obtain ⟨kind, col⟩ := t
    cases kind with
    | symbol y =>
      cases y with
      | equals => cases inside <;> exact .head rfl (ih _)
      | openParen => exact .head rfl (ih (inside + 1))
      | andAnd =>
        cases inside with
        | zero => exact .single rfl
        | succ inside => exact .head rfl (ih (inside + 1))
      | closeParen =>
        cases inside with
        | succ inside => exact .head rfl (ih inside)
        | zero =>
          -- a parenthesis that closes nothing is skipped
          cases parens with
          | zero => exact .head rfl (ih 0)
          | succ parens => exact .single rfl
    | _ => exact .head rfl (ih inside)

theorem fail_gives (task : Task) (c : Complaint) (col : Nat) :
    Gives (fail ⟨task, ps, ts, endCol, parens, n⟩ c col) ps ((Scope.depth endCol parens).fail c col ts) :=
  skip_gives 0 (error c.text col) ts

/-- Behind its operand a statement ends, or it recovers. -/
theorem statement_gives (hr : Performs endCol n r) :
    Gives ⟨.operand, .statement :: ps, ts, endCol, parens, n⟩ ps (statement r (.depth endCol parens) ts) := by
  have hoperand := hr (.statement :: ps) ts parens
  rcases atEnd_or (.depth endCol parens) (r (.depth endCol parens) ts).2 with hend | ⟨t, rest, hrest, ht⟩
  · rw [statement_of_atEnd hend]
    refine .tail hoperand (congrArg some ?_)
    rcases hrest : (r (.depth endCol parens) ts).2 with _ | ⟨t, rest⟩
    · rfl
    · rw [hrest] at hend
      exact if_pos (hend t rfl)
  · rw [statement_of_not_end hrest ht]
    have ht : ¬(Scope.depth endCol parens).endsStatement t.kind = true := by simp [ht]
    rw [Gives, hrest] at hoperand
    exact hoperand.trans (.head (congrArg some (if_neg ht)) (fail_gives _ _ _))

theorem takeUp_chain {d : Descent} {e : Expr} {read : List Expr} (h : NoLink d.ahead) :
    d.takeUp e (.chain read) = d.give (joined read e) := by
  simp only [takeUp]
  split
  · next heq => exact absurd rfl (h _ (by rw [heq]; rfl))
  · rfl

/-- A chain goes on behind each `&&`. -/
theorem chain_gives (hs : Shrinks r) (hr : Performs endCol n r) (ts : List Token) (read : List Expr) (ps : List Pending) :
    Gives ⟨.operand, .statement :: .chain read :: ps, ts, endCol, parens, n⟩ ps
      (joined read (chain r (.depth endCol parens) ts).1, (chain r (.depth endCol parens) ts).2) := by
  refine chain_induction hs (.depth endCol parens) (P := fun ts q => ∀ read ps,
    Gives ⟨.operand, .statement :: .chain read :: ps, ts, endCol, parens, n⟩ ps (joined read q.1, q.2)) ?_ ?_ ts read ps
  · exact fun ts hlink read ps => .tail (statement_gives hr) (congrArg some (takeUp_chain hlink))
  · intro ts ⟨kind, col⟩ rest hrest ht ih read ps
    obtain rfl : kind = .symbol .andAnd := ht
    refine .trans (statement_gives hr) ?_
    rw [hrest]
    exact .head rfl (ih _ ps)

/-- The close of a group takes back the count of its parenthesis, also where there is none. -/
theorem group_steps (hs : Shrinks r) (hr : Performs endCol n r) (ts : List Token) :
    Steps ⟨.chain, .group :: ps, ts, endCol, parens + 1, n⟩
      ⟨.give (group r (.depth endCol parens) ts).1, ps, (group r (.depth endCol parens) ts).2, endCol, parens, n⟩ := by
  have hinside := Scope.inside_depth endCol parens
  refine .head rfl (.trans (chain_gives hs hr ts [] (.group :: ps)) ?_)
  rcases chain_rest hs (.depth endCol (parens + 1)) ts with hrest | ⟨-, col, rest, hrest⟩
  -- where the line ends in the group, nothing is consumed
  · rw [group_unclosed (by rwa [hinside]), hinside, hrest]
    exact .single rfl
  · rw [group_closed (by rwa [hinside]), hinside, hrest]
    exact .single rfl

theorem primary_gives (hs : Shrinks r) (hr : Performs endCol n r) (ts : List Token) :
    Gives ⟨.primary, ps, ts, endCol, parens, n⟩ ps (primary r (.depth endCol parens) ts) := by
  rw [← Opening.read_ofTokens]
  have hstep : step ⟨.primary, ps, ts, endCol, parens, n⟩ =
      some (proceed ⟨.primary, ps, ts, endCol, parens, n⟩ (.ofTokens (.depth endCol parens) ts)) := rfl
  refine .head hstep ?_
  cases Opening.ofTokens (.depth endCol parens) ts with
  | whole e rest => exact .refl
  | malformed c col rest => exact fail_gives _ c col
  | group rest => exact group_steps hs hr rest
  | verb v rest =>
    rw [Opening.read_verb]
    exact .tail (hr (.verb v :: ps) rest parens) rfl

/-- With so many levels left as operands may still be opened, an operand is read, and it is closed again. -/
theorem operand_performs (levels : Nat) (h : n + levels = maxNesting) : Performs endCol n (operand levels) := by
  induction levels generalizing n with
  | zero =>
    intro ps ts parens
    have hfull : maxNesting ≤ n := Nat.le_of_eq h.symm
    exact .head (if_pos hfull) (fail_gives _ _ _)
  | succ levels ih =>
    intro ps ts parens
    have hfree : ¬maxNesting ≤ n := by omega
    have hinside : Performs endCol (n + 1) (operand levels) := ih (by omega)
    have hprimary : Gives ⟨.primary, .operand :: ps, ts, endCol, parens, n + 1⟩ (.operand :: ps) _ :=
      primary_gives (operand_suffix levels) hinside ts
    -- the operand is counted when it is opened, and no more when it is closed
    exact .head (if_neg hfree) (.tail hprimary rfl)

/-- Reading a line that is not blank gives the tree of its chain, and nothing is left under way. -/
theorem line_steps {l : Line} (h : l.tokens ≠ []) :
    Steps (start l) ⟨.give (chain (operand maxNesting) ⟨l.endCol, false⟩ l.tokens).1, [], [], l.endCol, 0, 0⟩ := by
  have hchain : Gives ⟨.operand, .statement :: .chain [] :: [], l.tokens, l.endCol, 0, 0⟩ [] _ :=
    chain_gives (operand_suffix maxNesting) (operand_performs maxNesting (Nat.zero_add _)) l.tokens [] []
  rw [show Scope.depth l.endCol 0 = ⟨l.endCol, false⟩ from rfl, chain_top (operand_suffix maxNesting)] at hchain
  have hline : (start l).step = some ⟨.chain, [], l.tokens, l.endCol, 0, 0⟩ := by simp [step, start, h]
  exact .head hline (.head rfl hchain)

/-- There is one way on from each moment, and so every moment comes before the last. -/
theorem Steps.to_end {d d' last : Descent} (hend : Steps d last) (hlast : last.step = none) (h : Steps d d') :
    Steps d' last := by
  have hunique : Relator.RightUnique fun d d' : Descent => d.step = some d' :=
    fun d d₁ d₂ h₁ h₂ => Option.some.inj (h₁.symm.trans h₂)
  rcases ReflTransGen.total_of_right_unique hunique hend h with hend | hend
  · rcases ReflTransGen.cases_head hend with rfl | ⟨d'', hstep, -⟩
    · exact .refl
    · cases hlast.symm.trans hstep
  · exact hend

end

end Descent

end RobotShell
