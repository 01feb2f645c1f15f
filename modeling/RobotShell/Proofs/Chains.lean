import RobotShell.Interpreter.Run
import RobotShell.Proofs.Printing
/-!
# Chains and their grouping

The parts of a chain are what is left of it when every `&&` at its top is taken away. Each part is one statement,
and the statements of a tree are those of its parts, from left to right. So a chain is run as its left part and
then its right part, and how it is grouped is lost on the way: two trees are groupings of one chain exactly if they
have the same parts, `regroups_iff`, and then they are run alike.
-/

namespace RobotShell

namespace Expr

/-- The largest trees in a tree that are no chains and are joined by nothing but `&&`, from left to right. -/
def parts : Expr → List Expr
  | seq left right => left.parts ++ right.parts
  | e => [e]

/-- The statement that a tree is by itself. A chain is none: it has a statement for each part. -/
def statement? : Expr → Option Statement
  | seq _ _ => none
  | error message col => some (.malformed message col)
  | assign x e => some (.assign x e)
  | name x => some (.run x)
  | help => some .help
  | echo x => some (.echo x)
  | rotate e => some (.rotate e)
  | move e => some (.move e)
  | buy x e => some (.buy x e)
  | sell x e => some (.sell x e)
  | inventory => some .inventory
  | marketPrices => some .marketPrices
  | cityPrices => some .cityPrices
  | quit => some .quit
  | stop => some .stop
  | e@landmark | e@(int _) => some (.unrecognized e)

/-- One tree is the other with the chain at its top grouped in another way. -/
inductive Regroups : Expr → Expr → Prop
  | refl (e : Expr) : Regroups e e
  | rotate (a b c : Expr) : Regroups (seq (seq a b) c) (seq a (seq b c))
  | seq {a a' b b' : Expr} (ha : Regroups a a') (hb : Regroups b b') : Regroups (seq a b) (seq a' b')
  | symm {a b : Expr} (h : Regroups a b) : Regroups b a
  | trans {a b c : Expr} (h : Regroups a b) (h' : Regroups b c) : Regroups a c

variable {a b e e' : Expr}

/-! ## Statements of a chain -/

/-- Each part is one statement. -/
theorem statements_eq (e : Expr) : e.statements.map some = e.parts.map statement? := by
  induction e with
  | seq left right ihl ihr => simp [statements_seq, parts, ihl, ihr]
  | _ => simp [statements, flatten, parts, statement?]

theorem not_isChain_of_mem_parts (h : a ∈ e.parts) : a.isChain = false := by
  induction e with
  | seq left right ihl ihr => exact (List.mem_append.1 h).elim ihl ihr
  | _ =>
    obtain rfl := List.mem_singleton.1 h
    rfl

/-! ## Groupings -/

/-- The chain of the trees that leans to the right. -/
def chained (first : Expr) : List Expr → Expr
  | [] => first
  | e :: rest => seq first (chained e rest)

/-- Two chains that lean to the right, joined, are a grouping of one that does. -/
theorem regroups_chained (a b : Expr) (as bs : List Expr) :
    Regroups (seq (chained a as) (chained b bs)) (chained a (as ++ b :: bs)) := by
  induction as generalizing a with
  | nil => exact .refl _
  | cons c as ih =>
    have hrotate : Regroups (seq (chained a (c :: as)) (chained b bs)) (seq a (seq (chained c as) (chained b bs))) :=
      .rotate a (chained c as) (chained b bs)
    exact hrotate.trans (.seq (.refl a) (ih c))

/-- Every tree is a grouping of the chain of its parts that leans to the right. -/
theorem exists_regroups_chained (e : Expr) : ∃ a as, e.parts = a :: as ∧ Regroups e (chained a as) := by
  induction e with
  | seq left right ihl ihr =>
    obtain ⟨a, as, hl, hleft⟩ := ihl
    obtain ⟨b, bs, hr, hright⟩ := ihr
    refine ⟨a, as ++ b :: bs, by simp [parts, hl, hr], ?_⟩
    exact (hleft.seq hright).trans (regroups_chained a b as bs)
  | _ => exact ⟨_, [], rfl, .refl _⟩

theorem Regroups.parts_eq (h : Regroups e e') : e.parts = e'.parts := by
  induction h with
  | refl e => rfl
  | rotate a b c => simp [parts]
  | seq _ _ iha ihb => rw [parts, parts, iha, ihb]
  | symm _ ih => exact ih.symm
  | trans _ _ ih ih' => exact ih.trans ih'

/-- Trees are groupings of one chain exactly if they have the same parts in the same order. -/
theorem regroups_iff : Regroups e e' ↔ e.parts = e'.parts := by
  refine ⟨Regroups.parts_eq, fun h => ?_⟩
  obtain ⟨a, as, he, hregroups⟩ := e.exists_regroups_chained
  obtain ⟨b, bs, he', hregroups'⟩ := e'.exists_regroups_chained
  obtain ⟨rfl, rfl⟩ : a = b ∧ as = bs := by simpa [he, he'] using h
  exact hregroups.trans hregroups'.symm

/-- Only the parts count for the statements of a tree. -/
theorem statements_congr (h : e.parts = e'.parts) : e.statements = e'.statements := by
  have hsome : e.statements.map some = e'.statements.map some := by rw [statements_eq, statements_eq, h]
  exact (List.map_inj_right fun _ _ => Option.some.inj).1 hsome

end Expr

namespace Interpreter

open RobotShell.Expr

theorem runTree_seq (i : Interpreter) (a b : Expr) : i.runTree (seq a b) = (i.runTree a).runTree b := by
  rw [runTree, statements_seq, List.foldl_append]
  rfl

/-- Every part of a tree is one statement, in order, and no part is a chain. So the statements of a chain are those
of its left side and then those of its right side, and in any state it is run as its left side and then its right
side. Trees that differ only in how the chain at their top is grouped have the same effect on every state. -/
theorem runTree_regroups (a b : Expr) :
    a.statements.map some = a.parts.map statement? ∧ (∀ e ∈ a.parts, e.isChain = false) ∧
      (seq a b).statements = a.statements ++ b.statements ∧
      (∀ i : Interpreter, i.runTree (seq a b) = (i.runTree a).runTree b) ∧
      (Regroups a b ↔ a.parts = b.parts) ∧
      (Regroups a b → ∀ i : Interpreter, i.runTree a = i.runTree b) := by
  refine ⟨statements_eq a, fun e he => not_isChain_of_mem_parts he, statements_seq a b, fun i => runTree_seq i a b,
    regroups_iff, fun h i => ?_⟩
  rw [runTree, runTree, statements_congr h.parts_eq]

/-- A chain of four parts in two groupings. The first of them is cut off, and the others are run all the same. -/
theorem runTree_regroups_halted :
    let i := (new .default).runLine "let x = (move 7 && x)"
    let a := seq (seq (name ⟨"x"⟩) (move (int 1))) (seq stop (rotate (int 2)))
    let b := seq (name ⟨"x"⟩) (seq (move (int 1)) (seq stop (rotate (int 2))))
    Regroups a b ∧ i.runTree a = i.runTree b ∧ (i.runTree b).faults = #[.selfReference ⟨"x"⟩] ∧
      (i.runTree b).instructions = #[.stop, .rotate 2] := by
  intro i a b
  obtain ⟨-, -, -, -, hiff, hrun⟩ := runTree_regroups a b
  have hregroups : Regroups a b := hiff.2 rfl
  exact ⟨hregroups, hrun hregroups i, by decide +kernel, by decide +kernel⟩

end Interpreter

end RobotShell
